import FieldLink.Proofs.CodeWindow
import FieldLink.ToolRequest

/-!
# Which texts are read as which numbers

Decimal digits of that value, behind a sign or without one.
-/

namespace FieldLink

namespace NumberText

/-- Decimal digits that spell a number, with zeros in front or without. -/
structure IsDecimal (digits : List Char) (n : Nat) : Prop where
  ne_nil : digits ≠ []
  isDigit : ∀ c ∈ digits, c.isDigit = true
  value : Nat.ofDigitChars 10 digits 0 = n

/-- A text that spells a natural number. It may have a plus sign, and zero may have a minus sign. -/
def Spells (text : List Char) (n : Nat) : Prop :=
  ∃ digits, IsDecimal digits n ∧ (text = digits ∨ text = '+' :: digits ∨ text = '-' :: digits ∧ n = 0)

theorem digits?_eq_some_iff {digits : List Char} {start n : Nat} :
    digits? start digits = some n ↔ (∀ c ∈ digits, c.isDigit = true) ∧ Nat.ofDigitChars 10 digits start = n := by
  constructor
  · intro h
    have hdigits : ∀ c ∈ digits, c.isDigit = true := by
      induction digits generalizing start with
      | nil => simp
      | cons c digits ih =>
        rw [digits?] at h
        split at h
        · next hc => exact List.forall_mem_cons.mpr ⟨hc, ih h⟩
        · cases h
    rw [digits?_of_isDigit hdigits, Option.some.injEq] at h
    exact ⟨hdigits, h⟩
  · rintro ⟨hdigits, hvalue⟩
    rw [digits?_of_isDigit hdigits, hvalue]

private theorem IsDecimal.head_ne {digits : List Char} {n : Nat} (h : IsDecimal digits n) {c : Char}
    (hc : c.isDigit = false) (rest : List Char) : digits ≠ c :: rest := by
  rintro rfl
  rw [h.isDigit c List.mem_cons_self] at hc
  cases hc

theorem isDecimal_iff {digits : List Char} {n : Nat} : IsDecimal digits n ↔ digits ≠ [] ∧ digits? 0 digits = some n := by
  rw [digits?_eq_some_iff]
  exact ⟨fun h => ⟨h.ne_nil, h.isDigit, h.value⟩, fun ⟨hne, hdigits, hvalue⟩ => ⟨hne, hdigits, hvalue⟩⟩

section Reading

variable {bound n : Nat}

theorem read?_plus_eq_some_iff {digits : List Char} :
    read? bound ('+' :: digits) = some n ↔ n < bound ∧ IsDecimal digits n := by
  rw [read?, isDecimal_iff]
  cases digits? 0 digits with
  | none => simp
  | some m => grind

theorem read?_of_ne_plus_eq_some_iff {text : List Char} (hplus : ∀ rest, text ≠ '+' :: rest) :
    read? bound text = some n ↔ n < bound ∧ IsDecimal text n := by
  rw [read?, isDecimal_iff]
  · cases digits? 0 text with
    | none => simp
    | some m => grind
  · exact hplus

theorem read?_eq_some_iff {text : List Char} :
    read? bound text = some n ↔ n < bound ∧ ∃ digits, IsDecimal digits n ∧ (text = digits ∨ text = '+' :: digits) := by
  by_cases hplus : ∃ rest, text = '+' :: rest
  · obtain ⟨rest, rfl⟩ := hplus
    rw [read?_plus_eq_some_iff]
    refine and_congr_right fun _ => ⟨fun h => ⟨rest, h, .inr rfl⟩, ?_⟩
    rintro ⟨digits, h, heq | heq⟩
    · exact absurd heq.symm (h.head_ne (by decide) rest)
    · cases heq
      exact h
  · rw [read?_of_ne_plus_eq_some_iff (not_exists.mp hplus)]
    refine and_congr_right fun _ => ⟨fun h => ⟨text, h, .inl rfl⟩, ?_⟩
    rintro ⟨digits, h, rfl | heq⟩
    · exact h
    · exact absurd ⟨digits, heq⟩ hplus

theorem readSigned?_minus_eq_some_iff {digits : List Char} :
    readSigned? bound ('-' :: digits) = some n ↔ IsDecimal digits n ∧ n = 0 := by
  rw [readSigned?]
  constructor
  · intro h
    obtain ⟨⟨hread, hsign⟩, hzero⟩ := Option.ite_none_right_eq_some.mp h
    obtain ⟨-, digits', hdecimal, rfl | rfl⟩ := read?_eq_some_iff.mp hread
    · cases hzero
      exact ⟨hdecimal, rfl⟩
    · exact absurd rfl hsign
  · rintro ⟨hdecimal, rfl⟩
    have hsign : digits.head? ≠ some '+' := by
      intro h
      obtain ⟨rest, rfl⟩ := List.head?_eq_some_iff.mp h
      exact hdecimal.head_ne (by decide) rest rfl
    rw [if_pos ⟨read?_eq_some_iff.mpr ⟨Nat.one_pos, digits, hdecimal, .inl rfl⟩, hsign⟩]

/-- A number below the bound is read just from the texts that spell it. -/
theorem readSigned?_eq_some_iff (hbound : 0 < bound) {text : List Char} :
    readSigned? bound text = some n ↔ n < bound ∧ Spells text n := by
  by_cases hminus : ∃ rest, text = '-' :: rest
  · obtain ⟨rest, rfl⟩ := hminus
    rw [readSigned?_minus_eq_some_iff]
    constructor
    · rintro ⟨h, rfl⟩
      exact ⟨hbound, rest, h, .inr (.inr ⟨rfl, rfl⟩)⟩
    · rintro ⟨-, digits, h, heq | heq | ⟨heq, hzero⟩⟩
      · exact absurd heq.symm (h.head_ne (by decide) rest)
      · cases heq
      · cases heq
        exact ⟨h, hzero⟩
  · have hunsigned : readSigned? bound text = read? bound text := by
      rw [readSigned?]
      exact not_exists.mp hminus
    rw [hunsigned, read?_eq_some_iff]
    refine and_congr_right fun _ => exists_congr fun digits => and_congr_right fun _ => ?_
    refine or_congr_right ⟨.inl, ?_⟩
    rintro (heq | ⟨heq, -⟩)
    · exact heq
    · exact absurd ⟨digits, heq⟩ hminus

/-- The same for machine numbers, of which there are `bound`. -/
theorem map_readSigned?_eq_some_iff {α : Type} {ofNat : Nat → α} {toNat : α → Nat} (hbound : 0 < bound)
    (hlt : ∀ x, toNat x < bound) (hofNat : ∀ x, ofNat (toNat x) = x) (htoNat : ∀ n < bound, toNat (ofNat n) = n)
    {text : List Char} {x : α} : (readSigned? bound text).map ofNat = some x ↔ Spells text (toNat x) := by
  rw [Option.map_eq_some_iff]
  constructor
  · rintro ⟨n, hread, rfl⟩
    obtain ⟨hn, hspells⟩ := (readSigned?_eq_some_iff hbound).mp hread
    rwa [htoNat n hn]
  · intro hspells
    exact ⟨toNat x, (readSigned?_eq_some_iff hbound).mpr ⟨hlt x, hspells⟩, hofNat x⟩

end Reading

end NumberText

namespace ToolRequest

variable {text : String}

theorem uint8?_eq_some_iff {x : UInt8} : uint8? text = some x ↔ NumberText.Spells text.toList x.toNat :=
  NumberText.map_readSigned?_eq_some_iff (by decide) UInt8.toNat_lt (fun _ => UInt8.ofNat_toNat)
    (fun _ hn => UInt8.toNat_ofNat_of_lt' hn)

theorem uint16?_eq_some_iff {x : UInt16} : uint16? text = some x ↔ NumberText.Spells text.toList x.toNat :=
  NumberText.map_readSigned?_eq_some_iff (by decide) UInt16.toNat_lt (fun _ => UInt16.ofNat_toNat)
    (fun _ hn => UInt16.toNat_ofNat_of_lt' hn)

theorem uint32?_eq_some_iff {x : UInt32} : uint32? text = some x ↔ NumberText.Spells text.toList x.toNat :=
  NumberText.map_readSigned?_eq_some_iff (by decide) UInt32.toNat_lt (fun _ => UInt32.ofNat_toNat)
    (fun _ hn => UInt32.toNat_ofNat_of_lt' hn)

end ToolRequest
end FieldLink
