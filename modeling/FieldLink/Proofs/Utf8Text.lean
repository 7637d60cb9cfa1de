import FieldLink.Utf8
import Mathlib.Data.List.Basic

/-!
# Text and its UTF-8 octets

Text is read back from its UTF-8 octets, one character at a time and whatever follows, and is read from no other
octets.
-/

namespace FieldLink.Utf8

theorem encode_append (a b : List Char) : encode (a ++ b) = encode a ++ encode b := List.flatMap_append

theorem encode_cons (c : Char) (text : List Char) : encode (c :: text) = encodeChar c ++ encode text :=
  List.flatMap_cons

theorem encode_eq_nil_iff {text : List Char} : encode text = [] ↔ text = [] := by
  cases text with
  | nil => exact iff_of_true rfl rfl
  | cons c text =>
    have hne : encodeChar c ≠ [] := by
      simp only [encodeChar]
      repeat' split
      all_goals simp
    simp [encode_cons, hne]

private theorem continuation?_ofNat {n : Nat} (h : n < 64) :
    continuation? (UInt8.ofNat (0x80 + n)) = some n := by
  have hvalue : (UInt8.ofNat (0x80 + n)).toNat = 0x80 + n := by
    rw [UInt8.toNat_ofNat']
    omega
  have hrange : 0x80 ≤ 0x80 + n ∧ 0x80 + n < 0xC0 := ⟨by omega, by omega⟩
  simp only [continuation?, hvalue, if_pos hrange, Nat.add_sub_cancel_left]

private theorem scalar?_toNat {c : Char} {least n : Nat} (hn : n = c.toNat) (h : least ≤ n) :
    scalar? least n = some c := by
  subst hn
  rw [scalar?, if_pos ⟨h, c.valid⟩, Char.ofNat_toNat]

theorem toNat_char_lt (c : Char) : c.toNat < 0x110000 := by
  have hvalid := c.valid
  simp only [UInt32.isValidChar, Nat.isValidChar] at hvalid
  simp only [Char.toNat]
  omega

theorem decodeChar?_encodeChar (c : Char) (rest : Octets) :
    decodeChar? (encodeChar c ++ rest) = some (c, rest) := by
  have hmax := toNat_char_lt c
  have hfirst {n : Nat} (hn : n < 256) : (UInt8.ofNat n).toNat = n := by
    rw [UInt8.toNat_ofNat']
    omega
  have hlow (n : Nat) : n % 64 < 64 := Nat.mod_lt n (by decide)
  unfold encodeChar
  simp only
  split
  · next h =>
    simp only [List.singleton_append, decodeChar?]
    rw [hfirst (by omega), if_pos h, Char.ofNat_toNat]
  · next h1 =>
    split
    · next h2 =>
      simp only [List.cons_append, List.nil_append, decodeChar?]
      rw [hfirst (by omega), if_neg (by omega), if_neg (by omega), if_pos (by omega),
        continuation?_ofNat (hlow _)]
      simp only [Option.bind_eq_bind, Option.bind_some]
      rw [scalar?_toNat (c := c) (by omega) (by omega)]
      rfl
    · next h2 =>
      split
      · next h3 =>
        simp only [List.cons_append, List.nil_append, decodeChar?]
        rw [hfirst (by omega), if_neg (by omega), if_neg (by omega), if_neg (by omega),
          if_pos (by omega), continuation?_ofNat (hlow _), continuation?_ofNat (hlow _)]
        simp only [Option.bind_eq_bind, Option.bind_some]
        rw [scalar?_toNat (c := c) (by omega) (by omega)]
        rfl
      · next h3 =>
        simp only [List.cons_append, List.nil_append, decodeChar?]
        rw [hfirst (by omega), if_neg (by omega), if_neg (by omega), if_neg (by omega),
          if_neg (by omega), if_pos (by omega), continuation?_ofNat (hlow _),
          continuation?_ofNat (hlow _), continuation?_ofNat (hlow _)]
        simp only [Option.bind_eq_bind, Option.bind_some]
        rw [scalar?_toNat (c := c) (by omega) (by omega)]
        rfl

private theorem decode?_of_decodeChar? {octets rest : Octets} {c : Char}
    (h : decodeChar? octets = some (c, rest)) : decode? octets = (decode? rest).map (c :: ·) := by
  cases octets with
  | nil => simp [decodeChar?] at h
  | cons octet octets =>
    rw [decode?]
    split
    · next hnone => rw [h] at hnone; cases hnone
    · next hsome =>
      rw [h] at hsome
      cases hsome
      rfl

/-- Encoded text in front of other octets is decoded before them. -/
theorem decode?_encode_append (text : List Char) (octets : Octets) :
    decode? (encode text ++ octets) = (decode? octets).map (text ++ ·) := by
  induction text with
  | nil => simp [encode]
  | cons c text ih =>
    rw [encode_cons, List.append_assoc, decode?_of_decodeChar? (decodeChar?_encodeChar c _), ih, Option.map_map]
    rfl

/-- Decoding gives back what was encoded. -/
@[simp] theorem decode?_encode (text : List Char) : decode? (encode text) = some text := by
  have h := decode?_encode_append text []
  simpa [decode?] using h

private theorem eq_of_continuation? {octet : UInt8} {n : Nat} (h : continuation? octet = some n) :
    n < 64 ∧ octet.toNat = 0x80 + n := by
  unfold continuation? at h
  split at h
  · have heq := Option.some.inj h
    omega
  · cases h

private theorem toNat_charOfNat {n : Nat} (h : n.isValidChar) : (Char.ofNat n).toNat = n := by
  rw [Char.ofNat, dif_pos h]
  rfl

private theorem eq_of_scalar? {least n : Nat} {c : Char} (h : scalar? least n = some c) :
    least ≤ n ∧ c.toNat = n := by
  unfold scalar? at h
  split at h
  · next hn =>
    cases h
    exact ⟨hn.1, toNat_charOfNat hn.2⟩
  · cases h

private theorem ofNat_eq_of_toNat (octet : UInt8) {n : Nat} (h : octet.toNat = n) : UInt8.ofNat n = octet := by
  rw [← h, UInt8.ofNat_toNat]

/-- What a character is read from is what it is written as. -/
theorem eq_encodeChar_of_decodeChar? {octets rest : Octets} {c : Char}
    (h : decodeChar? octets = some (c, rest)) : octets = encodeChar c ++ rest := by
  unfold decodeChar? at h
  split at h
  · cases h
  · next first tail =>
    split at h
    · next h1 =>
      cases h
      have hcode : (Char.ofNat first.toNat).toNat = first.toNat := toNat_charOfNat (.inl (by omega))
      simp only [encodeChar, hcode, if_pos h1, UInt8.ofNat_toNat, List.singleton_append]
    · split at h
      · cases h
      · split at h
        · split at h
          · next second _ =>
            obtain ⟨n₂, h₂, h⟩ := Option.bind_eq_some_iff.mp h
            obtain ⟨char, hchar, h⟩ := Option.bind_eq_some_iff.mp h
            cases h
            obtain ⟨hlow₂, h₂⟩ := eq_of_continuation? h₂
            obtain ⟨hleast, hcode⟩ := eq_of_scalar? hchar
            simp only [encodeChar, hcode]
            rw [if_neg (by omega), if_pos (by omega), ofNat_eq_of_toNat first (by omega),
              ofNat_eq_of_toNat second (by omega)]
            rfl
          · cases h
        · split at h
          · split at h
            · next second third _ =>
              obtain ⟨n₂, h₂, h⟩ := Option.bind_eq_some_iff.mp h
              obtain ⟨n₃, h₃, h⟩ := Option.bind_eq_some_iff.mp h
              obtain ⟨char, hchar, h⟩ := Option.bind_eq_some_iff.mp h
              cases h
              obtain ⟨hlow₂, h₂⟩ := eq_of_continuation? h₂
              obtain ⟨hlow₃, h₃⟩ := eq_of_continuation? h₃
              obtain ⟨hleast, hcode⟩ := eq_of_scalar? hchar
              simp only [encodeChar, hcode]
              rw [if_neg (by omega), if_neg (by omega), if_pos (by omega), ofNat_eq_of_toNat first (by omega),
                ofNat_eq_of_toNat second (by omega), ofNat_eq_of_toNat third (by omega)]
              rfl
            · cases h
          · split at h
            · split at h
              · next second third fourth _ =>
                obtain ⟨n₂, h₂, h⟩ := Option.bind_eq_some_iff.mp h
                obtain ⟨n₃, h₃, h⟩ := Option.bind_eq_some_iff.mp h
                obtain ⟨n₄, h₄, h⟩ := Option.bind_eq_some_iff.mp h
                obtain ⟨char, hchar, h⟩ := Option.bind_eq_some_iff.mp h
                cases h
                obtain ⟨hlow₂, h₂⟩ := eq_of_continuation? h₂
                obtain ⟨hlow₃, h₃⟩ := eq_of_continuation? h₃
                obtain ⟨hlow₄, h₄⟩ := eq_of_continuation? h₄
                obtain ⟨hleast, hcode⟩ := eq_of_scalar? hchar
                simp only [encodeChar, hcode]
                rw [if_neg (by omega), if_neg (by omega), if_neg (by omega), ofNat_eq_of_toNat first (by omega),
                  ofNat_eq_of_toNat second (by omega), ofNat_eq_of_toNat third (by omega),
                  ofNat_eq_of_toNat fourth (by omega)]
                rfl
              · cases h
            · cases h

/-- Only the octets of a text are read as it. -/
theorem encode_of_decode? {octets : Octets} {text : List Char} (h : decode? octets = some text) :
    encode text = octets := by
  induction text generalizing octets with
  | nil =>
    cases octets with
    | nil => rfl
    | cons octet octets =>
      rw [decode?] at h
      split at h
      · cases h
      · simp at h
  | cons c text ih =>
    cases octets with
    | nil => simp [decode?] at h
    | cons octet octets =>
      rw [decode?] at h
      split at h
      · cases h
      · next d rest hchar =>
        obtain ⟨others, hothers, heq⟩ := Option.map_eq_some_iff.mp h
        cases heq
        rw [encode_cons, ih hothers, ← eq_encodeChar_of_decodeChar? hchar]

end FieldLink.Utf8
