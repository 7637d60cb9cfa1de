import FieldLink.JsonDocument
import FieldLink.Proofs.DecimalDigits
import Mathlib.Data.List.TakeWhile

/-!
# Numbers are read back from JSON texts

A written number is taken apart into the digits before the point, the digits after it and the exponent; whatever
the reader drops from it does not change the nearest float.
-/

namespace FieldLink.JsonReader

/-- What may stand behind a number: nothing, or a character that no number goes on with. -/
def EndsNumber (rest : List Char) : Prop :=
  ∀ c, rest.head? = some c → isDigit c = false ∧ c ≠ '.' ∧ c ≠ 'e' ∧ c ≠ 'E'

private theorem readDigits_append {digits rest : List Char} (hne : digits ≠ [])
    (hdigits : AllDigits digits) (hrest : ∀ c, rest.head? = some c → isDigit c = false) :
    readDigits (digits ++ rest) = some (digits, rest) := by
  have htake : rest.takeWhile isDigit = [] := by
    cases rest with
    | nil => rfl
    | cons c rest => rw [List.takeWhile_cons, hrest c rfl, if_neg (by decide)]
  have hdrop : rest.dropWhile isDigit = rest := by
    cases rest with
    | nil => rfl
    | cons c rest => rw [List.dropWhile_cons, hrest c rfl, if_neg (by decide)]
  simp only [readDigits, List.takeWhile_append_of_pos hdigits, List.dropWhile_append_of_pos hdigits, htake,
    hdrop, List.append_nil]
  rw [if_neg (by simpa using hne)]

def fractionText (digits : List Char) : List Char := if digits = [] then [] else '.' :: digits

def exponentText : Option Int → List Char
  | none => []
  | some e => 'e' :: (if e < 0 then '-' else '+') :: decimalDigits e.natAbs

private theorem readFraction_fractionText {digits rest : List Char} (hdigits : AllDigits digits)
    (hrest : ∀ c, rest.head? = some c → isDigit c = false ∧ c ≠ '.') :
    readFraction (fractionText digits ++ rest) = some (digits, rest) := by
  by_cases hnil : digits = []
  · subst hnil
    rw [fractionText, if_pos rfl, List.nil_append]
    cases rest with
    | nil => rfl
    | cons c rest =>
      have hpoint := (hrest c rfl).2
      unfold readFraction
      split
      · next heq => exact absurd (List.cons.inj heq).1 hpoint
      · rfl
  · rw [fractionText, if_neg hnil, List.cons_append, readFraction]
    exact readDigits_append hnil hdigits fun c hc => (hrest c hc).1

private theorem readExponent_exponentText {exponent : Option Int} {rest : List Char} (hrest : EndsNumber rest) :
    readExponent (exponentText exponent ++ rest) = some (exponent, rest) := by
  cases exponent with
  | none =>
    rw [exponentText, List.nil_append]
    cases rest with
    | nil => rfl
    | cons c rest =>
      have hmarks := (hrest c rfl).2.2
      unfold readExponent
      split
      · next heq => exact absurd (List.cons.inj heq).1 hmarks.1
      · next heq => exact absurd (List.cons.inj heq).1 hmarks.2
      · rfl
  | some e =>
    have hread : readDigits (decimalDigits e.natAbs ++ rest) = some (decimalDigits e.natAbs, rest) :=
      readDigits_append (decimalDigits_ne_nil _) (allDigits_decimalDigits _)
        fun c hc => (hrest c hc).1
    by_cases hsign : e < 0
    · rw [exponentText, if_pos hsign, List.cons_append, List.cons_append, readExponent, readSigned, hread]
      simp only [Option.map_some, digitsValue_decimalDigits]
      congr 3
      omega
    · rw [exponentText, if_neg hsign, List.cons_append, List.cons_append, readExponent, readSigned, hread]
      simp only [Option.map_some, digitsValue_decimalDigits]
      congr 3
      omega

private theorem abridge_few {digits : List Char} (hdigits : AllDigits digits)
    (hfew : digitCount (digitsValue digits) ≤ keptDigits) (e : Int) :
    abridge digits e = (digitsValue digits, e) := by
  simp only [abridge, length_dropWhile_zero hdigits]
  rw [if_pos (Nat.sub_eq_zero_of_le hfew), digitsValue_dropWhile]

/-- A number as it is written, but for its sign. -/
structure WrittenNumber where
  whole : List Char
  fraction : List Char
  exponent : Option Int
  whole_ne_nil : whole ≠ []
  leading : whole.head? = some '0' → whole.length = 1
  whole_digit : AllDigits whole
  fraction_digit : AllDigits fraction
  few : digitCount (digitsValue (whole ++ fraction)) ≤ keptDigits

namespace WrittenNumber

def text (p : WrittenNumber) : List Char := p.whole ++ (fractionText p.fraction ++ exponentText p.exponent)

def decimal (p : WrittenNumber) : Decimal :=
  ⟨digitsValue (p.whole ++ p.fraction), p.exponent.getD 0 - p.fraction.length⟩

/-- The digits of the fraction up to the last one that is not zero. -/
def places (p : WrittenNumber) : List Char := (p.fraction.reverse.dropWhile (· = '0')).reverse

def number (p : WrittenNumber) (negative : Bool) : JsonNumber :=
  ⟨negative, p.fraction.isEmpty && p.exponent.isNone, digitsValue (p.whole ++ p.places),
    p.exponent.getD 0 - p.places.length⟩

private theorem exists_fraction (p : WrittenNumber) : ∃ zeros, p.fraction = p.places ++ List.replicate zeros '0' := by
  have hsplit := List.takeWhile_append_dropWhile (l := p.fraction.reverse) (p := (· = '0'))
  have hzeros : p.fraction.reverse.takeWhile (· = '0') =
      List.replicate (p.fraction.reverse.takeWhile (· = '0')).length '0' := by
    rw [List.eq_replicate_iff]
    refine ⟨rfl, fun c hc => ?_⟩
    simpa using List.mem_takeWhile_imp hc
  refine ⟨(p.fraction.reverse.takeWhile (· = '0')).length, ?_⟩
  have hreversed := congrArg List.reverse hsplit
  rw [List.reverse_append, List.reverse_reverse, hzeros, List.reverse_replicate] at hreversed
  exact hreversed.symm

private theorem decimal_of_places (p : WrittenNumber) {zeros : Nat}
    (h : p.fraction = p.places ++ List.replicate zeros '0') (negative : Bool) :
    p.decimal = ⟨(p.number negative).coefficient * 10 ^ zeros, (p.number negative).exponent - zeros⟩ := by
  have hcoefficient : digitsValue (p.whole ++ p.fraction) = digitsValue (p.whole ++ p.places) * 10 ^ zeros := by
    rw [h, ← List.append_assoc, digitsValue_append, digitsValue_replicate_zero, List.length_replicate,
      Nat.add_zero]
  have hlength : p.fraction.length = p.places.length + zeros := by
    rw [h, List.length_append, List.length_replicate]
  simp only [decimal, number, hcoefficient, hlength]
  congr 1
  omega

private theorem round_number (p : WrittenNumber) (f : FloatFormat) (negative : Bool) :
    Decimal.round f negative ⟨(p.number negative).coefficient, (p.number negative).exponent⟩ =
      Decimal.round f negative p.decimal := by
  obtain ⟨zeros, hzeros⟩ := p.exists_fraction
  rw [p.decimal_of_places hzeros negative]
  by_cases hcoefficient : (p.number negative).coefficient = 0
  · simp [Decimal.round, hcoefficient]
  · rw [Decimal.round_mul_pow negative hcoefficient]
    congr 2
    omega

private theorem readUnsigned_text (p : WrittenNumber) (negative : Bool) {rest : List Char} (hrest : EndsNumber rest) :
    readUnsigned negative (p.text ++ rest) = some (p.number negative, rest) := by
  obtain ⟨zeros, hzeros⟩ := p.exists_fraction
  have hexponent : ∀ c, (exponentText p.exponent ++ rest).head? = some c → isDigit c = false ∧ c ≠ '.' := by
    intro c hc
    cases hcase : p.exponent with
    | none =>
      rw [hcase, exponentText, List.nil_append] at hc
      exact ⟨(hrest c hc).1, (hrest c hc).2.1⟩
    | some e =>
      rw [hcase, exponentText, List.cons_append, List.head?_cons] at hc
      cases hc
      decide
  have hfraction : ∀ c, (fractionText p.fraction ++ (exponentText p.exponent ++ rest)).head? = some c →
      isDigit c = false := by
    intro c hc
    by_cases hnil : p.fraction = []
    · rw [fractionText, if_pos hnil, List.nil_append] at hc
      exact (hexponent c hc).1
    · rw [fractionText, if_neg hnil, List.cons_append, List.head?_cons] at hc
      cases hc
      decide
  have hwhole : readWhole (p.whole ++ (fractionText p.fraction ++ (exponentText p.exponent ++ rest))) =
      some (p.whole, fractionText p.fraction ++ (exponentText p.exponent ++ rest)) := by
    rw [readWhole, readDigits_append p.whole_ne_nil p.whole_digit hfraction]
    simp only [Option.bind_eq_bind, Option.bind_some]
    rw [if_neg]
    rintro ⟨hzero, hlength⟩
    exact hlength (p.leading hzero)
  have hplaces : AllDigits p.places := by
    have hfraction := p.fraction_digit
    rw [hzeros] at hfraction
    exact hfraction.left
  have hfew : digitCount (digitsValue (p.whole ++ p.places)) ≤ keptDigits := by
    refine Nat.le_trans (digitCount_mono ?_) p.few
    have hcoefficient := congrArg Decimal.coefficient (p.decimal_of_places hzeros negative)
    simp only [decimal, number] at hcoefficient
    rw [hcoefficient]
    exact Nat.le_mul_of_pos_right _ (ten_pow_pos zeros)
  rw [text, List.append_assoc, List.append_assoc, readUnsigned, hwhole]
  simp only [Option.bind_eq_bind, Option.bind_some]
  rw [readFraction_fractionText p.fraction_digit hexponent]
  simp only [Option.bind_some]
  rw [readExponent_exponentText hrest]
  simp only [Option.bind_some]
  rw [← places, abridge_few (p.whole_digit.append hplaces) hfew]
  rfl

private theorem readNumber_text (p : WrittenNumber) (negative : Bool) {rest : List Char} (hrest : EndsNumber rest) :
    readNumber (signText negative ++ (p.text ++ rest)) = some (p.number negative, rest) := by
  cases negative with
  | true => exact p.readUnsigned_text true hrest
  | false =>
    rw [signText, if_neg (by decide), List.nil_append, ← p.readUnsigned_text false hrest]
    unfold readNumber
    split
    · next heq =>
      obtain ⟨c, digits, hwhole⟩ := List.exists_cons_of_ne_nil p.whole_ne_nil
      have hdigit := p.whole_digit c (by rw [hwhole]; exact List.mem_cons_self)
      rw [text, hwhole, List.cons_append, List.cons_append] at heq
      rw [(List.cons.inj heq).1] at hdigit
      exact absurd hdigit (by decide)
    · rfl

def padded (c zeros : Nat) (hc : c ≠ 0) (hfew : digitCount c + zeros < keptDigits) : WrittenNumber where
  whole := decimalDigits c ++ List.replicate zeros '0'
  fraction := ['0']
  exponent := none
  whole_ne_nil := List.append_ne_nil_of_left_ne_nil (decimalDigits_ne_nil c) _
  leading := by
    intro hzero
    rw [List.head?_append_of_ne_nil _ (decimalDigits_ne_nil c)] at hzero
    exact absurd hzero (head_decimalDigits hc)
  whole_digit := (allDigits_decimalDigits c).append (allDigits_zeros zeros)
  fraction_digit := allDigits_zeros 1
  few := by
    rw [digitsValue_append, digitsValue_append, digitsValue_decimalDigits, digitsValue_replicate_zero,
      List.length_replicate, List.length_singleton, digitCount_le_iff]
    have hbound : c * 10 ^ zeros < 10 ^ (digitCount c + zeros) := by
      rw [Nat.pow_add]
      exact Nat.mul_lt_mul_of_pos_right (lt_pow_digitCount c) (ten_pow_pos zeros)
    calc
      (c * 10 ^ zeros + 0) * 10 ^ 1 + digitsValue ['0'] = c * 10 ^ zeros * 10 := by simp [digitsValue]
      _ < 10 ^ (digitCount c + zeros) * 10 := Nat.mul_lt_mul_of_pos_right hbound (by decide)
      _ = 10 ^ (digitCount c + zeros + 1) := (Nat.pow_succ ..).symm
      _ ≤ 10 ^ keptDigits := Nat.pow_le_pow_right (by decide) hfew

/-- Digits with the point, if any are left behind it, after the first `place`. -/
def split (c place : Nat) (exponent : Option Int) (hc : c ≠ 0) (hplace : 0 < place)
    (hfew : digitCount c ≤ keptDigits) : WrittenNumber where
  whole := (decimalDigits c).take place
  fraction := (decimalDigits c).drop place
  exponent := exponent
  whole_ne_nil := by
    have : 0 < (decimalDigits c).length := Nat.length_toDigits_pos
    apply List.ne_nil_of_length_pos
    rw [List.length_take]
    omega
  leading := by
    intro hzero
    rw [List.head?_take, if_neg (by omega)] at hzero
    exact absurd hzero (head_decimalDigits hc)
  whole_digit := (allDigits_decimalDigits c).take place
  fraction_digit := (allDigits_decimalDigits c).drop place
  few := by
    rw [List.take_append_drop, digitsValue_decimalDigits]
    exact hfew

def small (c zeros : Nat) (hfew : digitCount c ≤ keptDigits) : WrittenNumber where
  whole := ['0']
  fraction := List.replicate zeros '0' ++ decimalDigits c
  exponent := none
  whole_ne_nil := List.cons_ne_nil _ _
  leading := fun _ => rfl
  whole_digit := allDigits_zeros 1
  fraction_digit := (allDigits_zeros zeros).append (allDigits_decimalDigits c)
  few := by
    rw [digitsValue_append, digitsValue_append, digitsValue_decimalDigits, digitsValue_replicate_zero]
    simpa [digitsValue] using hfew

def zero : WrittenNumber where
  whole := ['0']
  fraction := ['0']
  exponent := none
  whole_ne_nil := List.cons_ne_nil _ _
  leading := fun _ => rfl
  whole_digit := allDigits_zeros 1
  fraction_digit := allDigits_zeros 1
  few := by simp [digitsValue, digitCount]

def integer (n : Nat) (hfew : digitCount n ≤ keptDigits) : WrittenNumber where
  whole := decimalDigits n
  fraction := []
  exponent := none
  whole_ne_nil := decimalDigits_ne_nil n
  leading := by
    intro hzero
    by_cases hn : n = 0
    · subst hn
      rfl
    · exact absurd hzero (head_decimalDigits hn)
  whole_digit := allDigits_decimalDigits n
  fraction_digit := allDigits_nil
  few := by
    rw [List.append_nil, digitsValue_decimalDigits]
    exact hfew

private theorem number_integer {n : Nat} (hfew : digitCount n ≤ keptDigits) (negative : Bool) :
    (integer n hfew).number negative = ⟨negative, true, n, 0⟩ := by
  simp [number, integer, places]

private theorem decimal_padded {c zeros : Nat} (hc : c ≠ 0) (hfew : digitCount c + zeros < keptDigits) :
    (padded c zeros hc hfew).decimal = ⟨c * 10 ^ (zeros + 1), -1⟩ := by
  simp only [decimal, padded, digitsValue_append, digitsValue_decimalDigits, digitsValue_replicate_zero,
    List.length_replicate, List.length_singleton, Option.getD_none]
  congr 1
  simp [digitsValue, Nat.pow_succ, Nat.mul_assoc]

private theorem decimal_split {c place : Nat} {exponent : Option Int} (hc : c ≠ 0) (hplace : 0 < place)
    (hfew : digitCount c ≤ keptDigits) :
    (split c place exponent hc hplace hfew).decimal =
      ⟨c, exponent.getD 0 - ((decimalDigits c).length - place : Nat)⟩ := by
  simp only [decimal, split, List.take_append_drop, digitsValue_decimalDigits, List.length_drop]

private theorem decimal_small {c zeros : Nat} (hfew : digitCount c ≤ keptDigits) :
    (small c zeros hfew).decimal = ⟨c, -(zeros + (decimalDigits c).length : Nat)⟩ := by
  simp only [decimal, small, digitsValue_append, digitsValue_decimalDigits, digitsValue_replicate_zero,
    List.length_append, List.length_replicate, Option.getD_none]
  congr 1
  · simp [digitsValue]
  · omega

end WrittenNumber

private theorem exists_positional_whole {d : Decimal} (hc : d.coefficient ≠ 0) (he : 0 ≤ d.exponent)
    (hfew : digitCount d.coefficient + d.exponent.toNat < keptDigits) (f : FloatFormat) (negative : Bool) :
    ∃ p : WrittenNumber, d.positional ++ ['.', '0'] = p.text ∧ p.fraction ≠ [] ∧
      Decimal.round f negative p.decimal = Decimal.round f negative d := by
  refine ⟨.padded d.coefficient d.exponent.toNat hc hfew, ?_, List.cons_ne_nil _ _, ?_⟩
  · simp [Decimal.positional, if_pos he, WrittenNumber.text, WrittenNumber.padded, fractionText, exponentText]
  · rw [WrittenNumber.decimal_padded, Decimal.round_mul_pow negative hc]
    congr 2
    omega

private theorem exists_positional_fraction {d : Decimal} (hc : d.coefficient ≠ 0) (he : d.exponent < 0)
    (hfew : digitCount d.coefficient ≤ keptDigits) :
    ∃ p : WrittenNumber, d.positional = p.text ∧ p.fraction ≠ [] ∧ p.decimal = d := by
  obtain ⟨c, e⟩ := d
  simp only at hc he hfew
  by_cases hpoint : 0 < (decimalDigits c).length + e
  · have hplace : 0 < ((decimalDigits c).length + e).toNat := by omega
    have hdrop : (decimalDigits c).drop ((decimalDigits c).length + e).toNat ≠ [] := by
      apply List.ne_nil_of_length_pos
      rw [List.length_drop]
      omega
    refine ⟨.split c _ none hc hplace hfew, ?_, hdrop, ?_⟩
    · simp [Decimal.positional, Int.not_le.mpr he, hpoint, WrittenNumber.text, WrittenNumber.split,
        fractionText, exponentText, hdrop]
    · rw [WrittenNumber.decimal_split, Option.getD_none]
      congr 1
      omega
  · refine ⟨.small c (-((decimalDigits c).length + e)).toNat hfew, ?_,
      List.append_ne_nil_of_right_ne_nil _ (decimalDigits_ne_nil c), ?_⟩
    · simp [Decimal.positional, Int.not_le.mpr he, hpoint, WrittenNumber.text, WrittenNumber.small,
        fractionText, exponentText]
    · rw [WrittenNumber.decimal_small]
      congr 1
      omega

private theorem exists_scientific {d : Decimal} (hc : d.coefficient ≠ 0)
    (hfew : digitCount d.coefficient ≤ keptDigits) :
    ∃ p : WrittenNumber, d.scientific = p.text ∧ p.exponent ≠ none ∧ p.decimal = d := by
  obtain ⟨c, e⟩ := d
  simp only at hc hfew
  have hpos : 0 < (decimalDigits c).length := Nat.length_toDigits_pos
  refine ⟨.split c 1 (some ((decimalDigits c).length + e - 1)) hc Nat.one_pos hfew, ?_,
    Option.some_ne_none _, ?_⟩
  · have hfraction : (if (decimalDigits c).length = 1 then [] else '.' :: (decimalDigits c).drop 1) =
        fractionText ((decimalDigits c).drop 1) := by
      rw [fractionText]
      have hdrop : (decimalDigits c).drop 1 = [] ↔ (decimalDigits c).length = 1 := by
        rw [List.drop_eq_nil_iff]
        omega
      simp only [hdrop]
    simp only [Decimal.scientific, hfraction, WrittenNumber.text, WrittenNumber.split, exponentText,
      List.append_assoc]
  · rw [WrittenNumber.decimal_split, Option.getD_some]
    congr 1
    omega

theorem exists_documentText (x : Double) :
    ∃ p : WrittenNumber, x.documentText = signText x.negative ++ p.text ∧
      (p.fraction ≠ [] ∨ p.exponent ≠ none) ∧ Decimal.round .double x.negative p.decimal = .finite x := by
  by_cases hx : x.index = 0
  · refine ⟨.zero, ?_, Or.inl (List.cons_ne_nil _ _), ?_⟩
    · simp [FiniteFloat.documentText, hx, WrittenNumber.text, WrittenNumber.zero, fractionText, exponentText]
    · have hcoefficient : WrittenNumber.zero.decimal.coefficient = 0 := by
        simp [WrittenNumber.decimal, WrittenNumber.zero, digitsValue]
      rw [Decimal.round, hcoefficient, ← FloatValue.ofIndex_index x, hx]
      simp
  · have hc := FiniteFloat.coefficient_shortest_ne_zero .toEven (by decide) hx
    have hfew := FiniteFloat.digitCount_shortest .toEven hx
    have hround := FiniteFloat.round_shortest .toEven (by decide) hx
    simp only [FiniteFloat.documentText, if_neg hx]
    generalize x.shortest .toEven = d at *
    split
    · next hrange =>
      split
      · next he =>
        have hshort : digitCount d.coefficient + d.exponent.toNat < keptDigits := by
          rw [keptDigits]
          omega
        obtain ⟨p, htext, hfraction, hvalue⟩ := exists_positional_whole hc he hshort .double x.negative
        exact ⟨p, by rw [htext], Or.inl hfraction, hvalue.trans hround⟩
      · next he =>
        obtain ⟨p, htext, hfraction, hvalue⟩ := exists_positional_fraction hc (Int.not_le.mp he) hfew
        exact ⟨p, by rw [htext], Or.inl hfraction, by rw [hvalue, hround]⟩
    · obtain ⟨p, htext, hexponent, hvalue⟩ := exists_scientific hc hfew
      exact ⟨p, by rw [htext], Or.inr hexponent, by rw [hvalue, hround]⟩

/-- A float is read back as itself from its text in a document. -/
theorem readNumber_documentText (x : Double) {rest : List Char} (hrest : EndsNumber rest) :
    ∃ n, readNumber (x.documentText ++ rest) = some (n, rest) ∧ n.toDocument? = some (.float x) := by
  obtain ⟨p, htext, hmarked, hround⟩ := exists_documentText x
  refine ⟨p.number x.negative, ?_, ?_⟩
  · rw [htext, List.append_assoc]
    exact p.readNumber_text x.negative hrest
  · have hwhole : (p.number x.negative).whole = false := by
      rcases hmarked with hfraction | hexponent
      · simp [WrittenNumber.number, hfraction]
      · cases hcase : p.exponent with
        | none => exact absurd hcase hexponent
        | some e => simp [WrittenNumber.number, hcase]
    have hfloat : JsonNumber.toDocument?.float (p.number x.negative) = some (.float x) := by
      rw [JsonNumber.toDocument?.float]
      have hvalue := p.round_number .double x.negative
      rw [hround] at hvalue
      rw [show (p.number x.negative).negative = x.negative from rfl, hvalue]
      rfl
    rw [JsonNumber.toDocument?, hwhole]
    simp only [Bool.false_eq_true, false_and, if_false, hfloat]
    split
    all_goals rfl

/-- An integer is read back as itself. -/
theorem readNumber_integerText (n : Integer) {rest : List Char} (hrest : EndsNumber rest) :
    ∃ k, readNumber (Document.integerText n.val ++ rest) = some (k, rest) ∧
      k.toDocument? = some (.integer n) := by
  have hlower := n.lower
  have hupper := n.upper
  have hfew : digitCount n.val.natAbs ≤ keptDigits := by
    refine Nat.le_trans (m := 20) ?_ (by decide)
    rw [digitCount_le_iff]
    omega
  have hread := (WrittenNumber.integer _ hfew).readNumber_text (n.val < 0) hrest
  rw [WrittenNumber.number_integer] at hread
  refine ⟨⟨n.val < 0, true, n.val.natAbs, 0⟩, ?_, ?_⟩
  · rw [← hread, Document.integerText, List.append_assoc]
    simp [WrittenNumber.text, WrittenNumber.integer, fractionText, exponentText]
  · have hsigned : (if decide (n.val < 0) = true then -(n.val.natAbs : Int) else n.val.natAbs) = n.val := by
      simp only [decide_eq_true_eq]
      split
      all_goals omega
    have hsign : ¬(decide (n.val < 0) = true ∧ n.val.natAbs = 0) := by
      simp only [decide_eq_true_eq]
      omega
    simp only [JsonNumber.toDocument?, hsigned, Integer.ofInt?_val, hsign, not_false_eq_true, and_self,
      if_true]

end FieldLink.JsonReader
