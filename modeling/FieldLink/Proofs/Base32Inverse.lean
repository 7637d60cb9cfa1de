import FieldLink.Base32
import FieldLink.Proofs.BitStrings
import FieldLink.Proofs.LetterCase
import FieldLink.Proofs.Outcomes
import Mathlib.Data.List.Forall2
import Mathlib.Data.List.Lemmas

/-!
# Base32 as a regrouping of bits

The characters that count stand for five bits each, and a text is decoded just if the bits behind the last whole
octet are zeros; the octets are then the bits in front of them. The word that collects the bits never holds more
than twelve of them, so that none is lost in a text of any length. What RFC 4648 writes for an octet string is
therefore decoded to it, with or without padding, in either case and with spaces anywhere.
-/

namespace FieldLink.Base32

def alphabet : List Char :=
  ['A', 'B', 'C', 'D', 'E', 'F', 'G', 'H', 'I', 'J', 'K', 'L', 'M', 'N', 'O', 'P', 'Q', 'R', 'S', 'T', 'U', 'V', 'W', 'X',
    'Y', 'Z', '2', '3', '4', '5', '6', '7']

/-- A character, in either case, stands for the place of its letter. -/
def Spells (c : Char) (value : UInt32) : Prop := alphabet[value.toNat]? = some c.toUpper

def stream (values : List UInt32) : List Bool := values.flatMap fun value => bitString 5 value.toNat

private theorem toNat_letter : ∀ n < 32, alphabet[n]?.map Char.toNat = some (if n < 26 then 65 + n else 24 + n) := by
  decide

theorem spells_iff_toNat {c : Char} {value : UInt32} : Spells c value ↔
    (value.toNat < 26 ∧ (c.toNat = 65 + value.toNat ∨ c.toNat = 97 + value.toNat)) ∨
      (26 ≤ value.toNat ∧ value.toNat < 32 ∧ c.toNat = 24 + value.toNat) := by
  have hupper := toNat_toUpper c
  constructor
  · intro h
    have hlt : value.toNat < 32 := (List.getElem?_eq_some_iff.mp h).1
    have hletter := toNat_letter value.toNat hlt
    rw [h, Option.map_some, Option.some.injEq, hupper] at hletter
    split at hletter <;> split at hletter <;> omega
  · intro h
    obtain ⟨letter, hletter, hcode⟩ := Option.map_eq_some_iff.mp (toNat_letter value.toNat (by omega))
    rw [Spells, hletter, Option.some.injEq, ← Char.toNat_inj, hcode, hupper]
    split <;> split <;> omega

theorem value?_eq_some_iff {c : Char} {value : UInt32} : value? c = some value ↔ Spells c value := by
  have hnumber {n : Nat} (h : n < 32) : some (UInt32.ofNat n) = some value ↔ value.toNat = n := by
    rw [Option.some.injEq, ← UInt32.toNat_inj, UInt32.toNat_ofNat_of_lt' (Nat.lt_trans h (by decide)), eq_comm]
  rw [spells_iff_toNat, value?]
  split
  · next hupper =>
    rw [hnumber (by omega)]
    omega
  split
  · next hlower =>
    rw [hnumber (by omega)]
    omega
  split
  · next hdigit =>
    rw [hnumber (by omega)]
    omega
  · next hother =>
    simp only [reduceCtorEq, false_iff]
    omega

theorem value?_eq_none_iff {c : Char} : value? c = none ↔ ∀ value, ¬Spells c value := by
  rw [Option.eq_none_iff_forall_ne_some]
  exact forall_congr' fun value => not_congr value?_eq_some_iff

theorem Spells.lt {c : Char} {value : UInt32} (h : Spells c value) : value.toNat < 32 :=
  (List.getElem?_eq_some_iff.mp h).1

private theorem values_cons_of_spells {c : Char} {value : UInt32} (h : Spells c value) (text : List Char) :
    values (c :: text) = (values text).map (value :: ·) := by
  rw [values, value?_eq_some_iff.mpr h]

private theorem values_cons_of_not_spells {c : Char} (h : ∀ value, ¬Spells c value) (text : List Char) :
    values (c :: text) = .error (.base32Character c) := by
  rw [values, value?_eq_none_iff.mpr h]

theorem Spells.unique {c : Char} {value other : UInt32} (h : Spells c value) (h' : Spells c other) : value = other :=
  Option.some.inj ((value?_eq_some_iff.mpr h).symm.trans (value?_eq_some_iff.mpr h'))

theorem values_eq_ok_iff {text : List Char} {vs : List UInt32} :
    values text = .ok vs ↔ List.Forall₂ Spells text vs := by
  induction text generalizing vs with
  | nil => rw [values, List.forall₂_nil_left_iff, Except.ok.injEq, eq_comm]
  | cons c text ih =>
    rw [List.forall₂_cons_left_iff]
    by_cases hc : ∃ value, Spells c value
    · obtain ⟨value, hvalue⟩ := hc
      rw [values_cons_of_spells hvalue, map_eq_ok_iff]
      constructor
      · rintro ⟨rest, hrest, rfl⟩
        exact ⟨value, rest, hvalue, ih.mp hrest, rfl⟩
      · rintro ⟨other, rest, hother, hrest, rfl⟩
        exact ⟨rest, ih.mpr hrest, by rw [hvalue.unique hother]⟩
    · rw [not_exists] at hc
      rw [values_cons_of_not_spells hc]
      refine iff_of_false nofun ?_
      rintro ⟨value, rest, hvalue, -⟩
      exact hc value hvalue

private theorem lt_of_spells {text : List Char} {vs : List UInt32} (h : List.Forall₂ Spells text vs) :
    ∀ value ∈ vs, value.toNat < 32 := by
  induction h with
  | nil => exact List.forall_mem_nil _
  | cons hvalue _ ih => exact List.forall_mem_cons.mpr ⟨hvalue.lt, ih⟩

theorem values_eq_error_iff {text : List Char} {fault : ArgumentFault} : values text = .error fault ↔
    ∃ front c rest, text = front ++ c :: rest ∧ (∀ d ∈ front, ∃ value, Spells d value) ∧ (∀ value, ¬Spells c value) ∧
      fault = .base32Character c := by
  induction text with
  | nil => simp [values]
  | cons d text ih =>
    by_cases hd : ∃ value, Spells d value
    · obtain ⟨value, hvalue⟩ := hd
      rw [values_cons_of_spells hvalue, map_eq_error_iff, ih]
      constructor
      · rintro ⟨front, c, rest, rfl, hfront, hc⟩
        exact ⟨d :: front, c, rest, rfl, List.forall_mem_cons.mpr ⟨⟨value, hvalue⟩, hfront⟩, hc⟩
      · rintro ⟨front, c, rest, htext, hfront, hc⟩
        cases front with
        | nil =>
          cases htext
          exact absurd hvalue (hc.1 value)
        | cons first front =>
          cases htext
          exact ⟨front, c, rest, rfl, (List.forall_mem_cons.mp hfront).2, hc⟩
    · rw [not_exists] at hd
      rw [values_cons_of_not_spells hd]
      constructor
      · rintro ⟨⟩
        exact ⟨[], d, text, rfl, List.forall_mem_nil _, hd, rfl⟩
      · rintro ⟨front, c, rest, htext, hfront, -, rfl⟩
        cases front with
        | nil =>
          cases htext
          rfl
        | cons first front =>
          cases htext
          obtain ⟨value, hvalue⟩ := hfront d List.mem_cons_self
          exact absurd hvalue (hd value)

private theorem significant_eq (text : List Char) :
    significant text = (text.takeWhile (· ≠ '=')).filter fun c => !isSpace c := by
  rw [significant, List.takeWhile_filter]
  congr 2
  funext c
  by_cases hc : c = '='
  · subst hc
    decide
  · simp [hc]

namespace Pending

def bits (p : Pending) : List Bool := bitString p.count.toNat p.buffer.toNat

/-- Fewer than eight bits are pending, and there is nothing else in the word. -/
structure IsProper (p : Pending) : Prop where
  count_lt : p.count.toNat < 8
  buffer_lt : p.buffer.toNat < 2 ^ p.count.toNat

private theorem isProper_empty : empty.IsProper := ⟨by decide, by decide⟩

variable {p : Pending} {value : UInt32}

/-- Five bits are put behind those that are pending, and none falls off the word. -/
theorem IsProper.toNat_shifted (h : p.IsProper) (hvalue : value.toNat < 32) :
    (p.buffer <<< 5 ||| value).toNat = p.buffer.toNat * 2 ^ 5 + value.toNat := by
  have hbuffer : p.buffer.toNat < 2 ^ 7 :=
    Nat.lt_of_lt_of_le h.buffer_lt (Nat.pow_le_pow_right (by omega) (Nat.le_of_lt_succ h.count_lt))
  have hshifted : (p.buffer <<< 5).toNat = p.buffer.toNat <<< 5 := by
    rw [UInt32.toNat_shiftLeft]
    apply Nat.mod_eq_of_lt
    show p.buffer.toNat <<< 5 < 2 ^ 32
    rw [Nat.shiftLeft_eq]
    omega
  rw [UInt32.toNat_or, hshifted, ← Nat.shiftLeft_add_eq_or_of_lt hvalue, Nat.shiftLeft_eq]

private theorem toNat_shiftRight {word width : UInt32} (h : width.toNat < 8) :
    (word >>> width).toNat = word.toNat / 2 ^ width.toNat := by
  rw [UInt32.toNat_shiftRight, Nat.mod_eq_of_lt (by omega), Nat.shiftRight_eq_div_pow]

private theorem toNat_and_mask {word width : UInt32} (h : width.toNat < 8) :
    (word &&& (1 <<< width - 1)).toNat = word.toNat % 2 ^ width.toNat := by
  have hpower : 2 ^ width.toNat < 2 ^ 8 := Nat.pow_lt_pow_right (by omega) h
  have hone : (1 <<< width : UInt32).toNat = 2 ^ width.toNat := by
    rw [UInt32.toNat_shiftLeft, Nat.mod_eq_of_lt (show width.toNat < 32 by omega), Nat.shiftLeft_eq,
      show (1 : UInt32).toNat = 1 from rfl, Nat.one_mul]
    exact Nat.mod_eq_of_lt (by omega)
  have hpositive : (1 : UInt32) ≤ 1 <<< width := by
    rw [UInt32.le_iff_toNat_le, hone]
    exact Nat.two_pow_pos width.toNat
  rw [UInt32.toNat_and, UInt32.toNat_sub_of_le _ _ hpositive, hone]
  exact Nat.and_two_pow_sub_one_eq_mod _ _

/-- What was pending and what is taken in is what is given out and what is pending then. -/
theorem IsProper.take (h : p.IsProper) (hvalue : value.toNat < 32) :
    (p.take value).2.IsProper ∧
      p.bits ++ bitString 5 value.toNat = octetBits (p.take value).1.toList ++ (p.take value).2.bits := by
  have hlt := h.count_lt
  have hcount : (p.count + 5).toNat = p.count.toNat + 5 := by
    rw [UInt32.toNat_add]
    exact Nat.mod_eq_of_lt (show p.count.toNat + 5 < 2 ^ 32 by omega)
  have htaken : p.bits ++ bitString 5 value.toNat =
      bitString (p.count + 5).toNat (p.buffer <<< 5 ||| value).toNat := by
    rw [h.toNat_shifted hvalue, hcount, bitString_mul_add hvalue, bits]
  rw [htaken, Pending.take]
  dsimp only
  split
  · next hfull =>
    have hleft : (p.count + 5 - 8).toNat = p.count.toNat - 3 := by
      rw [UInt32.toNat_sub_of_le _ _ hfull, hcount]
      rfl
    have hwidth : (p.count + 5).toNat = 8 + (p.count + 5 - 8).toNat := by
      rw [UInt32.le_iff_toNat_le, hcount] at hfull
      have : 8 ≤ p.count.toNat + 5 := hfull
      omega
    have hfew : (p.count + 5 - 8).toNat < 8 := by omega
    refine ⟨⟨hfew, ?_⟩, ?_⟩
    · rw [toNat_and_mask hfew]
      exact Nat.mod_lt _ (Nat.two_pow_pos _)
    · rw [hwidth, bitString_append, Option.toList_some, octetBits, List.flatMap_singleton, UInt32.toNat_toUInt8,
        bitString_mod, toNat_shiftRight hfew, bits, toNat_and_mask hfew, bitString_mod]
  · next hshort =>
    rw [UInt32.le_iff_toNat_le, hcount, Nat.not_le] at hshort
    refine ⟨⟨?_, ?_⟩, rfl⟩
    · rw [hcount]
      exact hshort
    · have hbuffer := Nat.mul_le_mul_right (2 ^ 5) (Nat.succ_le_of_lt h.buffer_lt)
      rw [h.toNat_shifted hvalue, hcount, Nat.pow_add]
      omega

end Pending

/-- The bits of values are what is given out, and behind it what is pending. -/
theorem regroup_bits {p : Pending} (h : p.IsProper) {vs : List UInt32} (hvs : ∀ value ∈ vs, value.toNat < 32) :
    (regroup p vs).2.IsProper ∧ p.bits ++ stream vs = octetBits (regroup p vs).1 ++ (regroup p vs).2.bits := by
  induction vs generalizing p with
  | nil => exact ⟨h, List.append_nil _⟩
  | cons value vs ih =>
    obtain ⟨hvalue, hrest⟩ := List.forall_mem_cons.mp hvs
    obtain ⟨hproper, htake⟩ := h.take hvalue
    obtain ⟨hlast, hbits⟩ := ih hproper hrest
    refine ⟨hlast, ?_⟩
    rw [stream, List.flatMap_cons, ← List.append_assoc, htake, List.append_assoc, ← stream, hbits, regroup,
      octetBits_append, List.append_assoc]

private theorem length_stream (vs : List UInt32) : (stream vs).length = 5 * vs.length := by
  induction vs with
  | nil => rfl
  | cons value vs ih =>
    rw [stream, List.flatMap_cons, List.length_append, length_bitString, ← stream, ih, List.length_cons]
    ring

def wholeBits (vs : List UInt32) : Nat := 8 * (5 * vs.length / 8)

def surplus (vs : List UInt32) : List Bool := (stream vs).drop (wholeBits vs)

/-- What is given out are the whole octets, and what is pending in the end are the bits behind them. -/
theorem regroup_empty {vs : List UInt32} (hvs : ∀ value ∈ vs, value.toNat < 32) :
    octetBits (regroup .empty vs).1 = (stream vs).take (wholeBits vs) ∧
      (regroup .empty vs).2.bits = surplus vs := by
  obtain ⟨hlast, hbits⟩ := regroup_bits Pending.isProper_empty hvs
  replace hbits : stream vs = octetBits (regroup .empty vs).1 ++ (regroup .empty vs).2.bits := hbits
  have hwhole : (octetBits (regroup .empty vs).1).length = wholeBits vs := by
    have hlength := congrArg List.length hbits
    rw [length_stream, List.length_append, length_octetBits, Pending.bits, length_bitString] at hlength
    have := hlast.count_lt
    rw [length_octetBits, wholeBits]
    omega
  rw [surplus, hbits]
  exact ⟨(List.take_left' hwhole).symm, (List.drop_left' hwhole).symm⟩

theorem Pending.IsProper.refused_iff {p : Pending} (h : p.IsProper) :
    (0 < p.count ∧ p.buffer ≠ 0) ↔ true ∈ p.bits := by
  have hbits : true ∈ p.bits ↔ p.buffer ≠ 0 := by
    rw [Ne, ← UInt32.toNat_inj, UInt32.toNat_zero, eq_zero_iff_of_lt h.buffer_lt]
    simp [Pending.bits]
  rw [hbits, and_iff_right_iff_imp]
  intro hbuffer
  rw [UInt32.lt_iff_toNat_lt]
  apply Nat.pos_of_ne_zero
  intro hcount
  have hlt := h.buffer_lt
  rw [hcount] at hlt
  exact hbuffer (UInt32.toNat_inj.mp (by rw [UInt32.toNat_zero]; omega))

private theorem decode_of_values {text : String} {vs : List UInt32} (h : values (significant text.toList) = .ok vs) :
    decode text = if true ∈ surplus vs then .error .base32Trailing else .ok (regroup .empty vs).1 := by
  have hvs := lt_of_spells (values_eq_ok_iff.mp h)
  have hproper := (regroup_bits Pending.isProper_empty hvs).1
  rw [← (regroup_empty hvs).2, decode, h]
  simp only [← hproper.refused_iff]
  rfl

/-- The characters that count: none from the first `=` on, and none that are spaces. -/
def counted (text : String) : List Char := (text.toList.takeWhile (· ≠ '=')).filter fun c => !isSpace c

theorem decode_eq_ok_iff {text : String} {octets : Octets} : decode text = .ok octets ↔
    ∃ vs, List.Forall₂ Spells (counted text) vs ∧ octetBits octets = (stream vs).take (wholeBits vs) ∧
      true ∉ surplus vs := by
  rw [counted, ← significant_eq]
  constructor
  · intro h
    obtain ⟨vs, hvs, -⟩ := exists_of_bind_eq_ok h
    have hspells := values_eq_ok_iff.mp hvs
    rw [decode_of_values hvs] at h
    split at h
    · cases h
    · next hzeros =>
      cases h
      exact ⟨vs, hspells, (regroup_empty (lt_of_spells hspells)).1, hzeros⟩
  · rintro ⟨vs, hspells, hoctets, hzeros⟩
    rw [← (regroup_empty (lt_of_spells hspells)).1] at hoctets
    rw [decode_of_values (values_eq_ok_iff.mpr hspells), if_neg hzeros, octetBits_injective hoctets]

theorem decode_eq_error_iff {text : String} {fault : ArgumentFault} : decode text = .error fault ↔
    (∃ front c rest, counted text = front ++ c :: rest ∧ (∀ d ∈ front, ∃ value, Spells d value) ∧
      (∀ value, ¬Spells c value) ∧ fault = .base32Character c) ∨
    ∃ vs, List.Forall₂ Spells (counted text) vs ∧ true ∈ surplus vs ∧ fault = .base32Trailing := by
  rw [counted, ← significant_eq, ← values_eq_error_iff]
  simp only [← values_eq_ok_iff]
  cases hvalues : values (significant text.toList) with
  | error other =>
    have hdecode : decode text = .error other := by
      rw [decode, hvalues]
      rfl
    simp [hdecode]
  | ok vs =>
    rw [decode_of_values hvalues]
    split
    · next hone => simp [hone, eq_comm]
    · next hzeros => simp [hzeros]

def groups (bits : List Bool) : List UInt32 :=
  if bits = [] then []
  else .ofNat (bitsValue (bits.take 5 ++ List.replicate (5 - bits.length) false)) :: groups (bits.drop 5)
termination_by bits.length
decreasing_by
  have := List.length_pos_iff.mpr ‹bits ≠ []›
  rw [List.length_drop]
  omega

def letter (value : UInt32) : Char := alphabet.getD value.toNat '='

/-- The text that RFC 4648 has for an octet string, with or without padding. -/
def encode (padded : Bool) (octets : Octets) : List Char :=
  let letters := (groups (octetBits octets)).map letter
  if padded then letters ++ List.replicate ((8 - letters.length % 8) % 8) '=' else letters

private theorem length_group (bits : List Bool) :
    (bits.take 5 ++ List.replicate (5 - bits.length) false).length = 5 := by
  rw [List.length_append, List.length_take, List.length_replicate]
  omega

private theorem bits_of_group {group : List Bool} (h : group.length = 5) :
    (UInt32.ofNat (bitsValue group)).toNat < 32 ∧ bitString 5 (UInt32.ofNat (bitsValue group)).toNat = group := by
  have hlt := bitsValue_lt group
  have hbits := bitString_bitsValue group
  rw [h] at hlt hbits
  rw [UInt32.toNat_ofNat_of_lt' (Nat.lt_trans hlt (by decide))]
  exact ⟨hlt, hbits⟩

private theorem lt_of_mem_groups (bits : List Bool) : ∀ value ∈ groups bits, value.toNat < 32 := by
  fun_induction groups bits with
  | case1 => exact List.forall_mem_nil _
  | case2 bits hne ih => exact List.forall_mem_cons.mpr ⟨(bits_of_group (length_group bits)).1, ih⟩

private theorem stream_groups (bits : List Bool) :
    stream (groups bits) = bits ++ List.replicate ((5 - bits.length % 5) % 5) false := by
  fun_induction groups bits with
  | case1 => rfl
  | case2 bits hne ih =>
    rw [stream, List.flatMap_cons, (bits_of_group (length_group bits)).2, ← stream, ih, List.length_drop]
    by_cases hfull : 5 ≤ bits.length
    · have hpadding : (bits.length - 5) % 5 = bits.length % 5 := by omega
      rw [Nat.sub_eq_zero_of_le hfull, List.replicate_zero, List.append_nil, hpadding, ← List.append_assoc,
        List.take_append_drop]
    · have hpos := List.length_pos_iff.mpr hne
      have hlast : bits.length - 5 = 0 := by omega
      have hpadding : (5 - bits.length % 5) % 5 = 5 - bits.length := by omega
      rw [List.take_of_length_le (by omega), List.drop_eq_nil_of_le (by omega), hlast, hpadding]
      simp

private theorem spells_of_toUpper {text : List Char} {vs : List UInt32} (hvs : ∀ value ∈ vs, value.toNat < 32)
    (h : text.map Char.toUpper = vs.map letter) : List.Forall₂ Spells text vs := by
  induction vs generalizing text with
  | nil =>
    rw [List.map_nil, List.map_eq_nil_iff] at h
    rw [h]
    exact .nil
  | cons value vs ih =>
    obtain ⟨hvalue, hrest⟩ := List.forall_mem_cons.mp hvs
    obtain ⟨c, text, rfl, hc, htext⟩ := List.map_eq_cons_iff.mp h
    refine .cons ?_ (ih hrest htext)
    rw [Spells, hc, letter, List.getD_eq_getElem?_getD, List.getElem?_eq_getElem hvalue, Option.getD_some]

theorem groups_octetBits (octets : Octets) :
    (stream (groups (octetBits octets))).take (wholeBits (groups (octetBits octets))) = octetBits octets ∧
      true ∉ surplus (groups (octetBits octets)) := by
  have hstream := stream_groups (octetBits octets)
  have hwhole : wholeBits (groups (octetBits octets)) = (octetBits octets).length := by
    have hlength := congrArg List.length hstream
    rw [length_stream, List.length_append, List.length_replicate] at hlength
    rw [wholeBits, hlength, length_octetBits]
    omega
  rw [surplus, hwhole, hstream, List.take_left, List.drop_left]
  refine ⟨rfl, fun hone => ?_⟩
  cases List.eq_of_mem_replicate hone

private theorem letter_ne_padding {value : UInt32} (h : value.toNat < 32) : letter value ≠ '=' := by
  have hnone : ∀ n < 32, alphabet.getD n '=' ≠ '=' := by decide
  exact hnone value.toNat h

theorem toUpper_eq_padding_iff (c : Char) : c.toUpper = '=' ↔ c = '=' := by
  rw [← Char.toNat_inj, ← Char.toNat_inj, toNat_toUpper]
  simp only [Char.reduceToNat]
  split <;> omega

private theorem toUpper_takeWhile {text letters : List Char} {count : Nat}
    (h : text.map Char.toUpper = letters ++ List.replicate count '=') (hletters : ∀ c ∈ letters, c ≠ '=') :
    (text.takeWhile (· ≠ '=')).map Char.toUpper = letters := by
  have hsame : (fun c : Char => decide (c ≠ '=')) = (fun c => decide (c ≠ '=')) ∘ Char.toUpper := by
    funext c
    simp [toUpper_eq_padding_iff]
  rw [hsame, ← List.takeWhile_map, h, List.takeWhile_append_of_pos (by simpa using hletters)]
  cases count <;> simp [List.replicate_succ]

/-- What is written for an octet string is decoded to it, in either case and with spaces between. -/
theorem decode_of_encode {padded : Bool} {octets : Octets} {text : String}
    (h : (text.toList.filter fun c => !isSpace c).map Char.toUpper = encode padded octets) :
    decode text = .ok octets := by
  obtain ⟨count, hcount⟩ : ∃ count, encode padded octets =
      (groups (octetBits octets)).map letter ++ List.replicate count '=' := by
    cases padded with
    | false => exact ⟨0, (List.append_nil _).symm⟩
    | true => exact ⟨_, rfl⟩
  have hgroups := lt_of_mem_groups (octetBits octets)
  obtain ⟨hbits, hzeros⟩ := groups_octetBits octets
  have hletters : ∀ c ∈ (groups (octetBits octets)).map letter, c ≠ '=' := by
    intro c hc
    obtain ⟨value, hvalue, rfl⟩ := List.mem_map.mp hc
    exact letter_ne_padding (hgroups value hvalue)
  rw [hcount] at h
  refine decode_eq_ok_iff.mpr ⟨_, ?_, hbits.symm, hzeros⟩
  rw [counted, ← significant_eq, significant]
  exact spells_of_toUpper hgroups (toUpper_takeWhile h hletters)

/-- Decoding regroups bits. A text is decoded just if the characters that count are letters of the alphabet and the bits
behind the last whole octet are zeros, and then to the octets in front of them; else the first character that is no
letter is at fault, or a one among the surplus. So what RFC 4648 writes is decoded to what it was written for. At any
point of any text the bits that were read are those that were given out and behind them those that are pending, and
those that come in next find room in the word. -/
theorem decode_regroups_bits :
    (∀ text octets, decode text = .ok octets ↔ ∃ vs, List.Forall₂ Spells (counted text) vs ∧
      octetBits octets = (stream vs).take (wholeBits vs) ∧ ∀ bit ∈ surplus vs, bit = false) ∧
    (∀ text fault, decode text = .error fault ↔
      (∃ front c rest, counted text = front ++ c :: rest ∧ (∀ d ∈ front, ∃ value, Spells d value) ∧
        (∀ value, ¬Spells c value) ∧ fault = .base32Character c) ∨
      ∃ vs, List.Forall₂ Spells (counted text) vs ∧ (∃ bit ∈ surplus vs, bit = true) ∧ fault = .base32Trailing) ∧
    (∀ padded octets (text : String),
      (text.toList.filter fun c => !isSpace c).map Char.toUpper = encode padded octets → decode text = .ok octets) ∧
    ∀ vs : List UInt32, (∀ value ∈ vs, value.toNat < 32) →
      stream vs = octetBits (regroup .empty vs).1 ++ (regroup .empty vs).2.bits ∧ (regroup .empty vs).2.IsProper ∧
      ∀ value : UInt32, value.toNat < 32 → ((regroup .empty vs).2.buffer <<< 5 ||| value).toNat =
        (regroup .empty vs).2.buffer.toNat * 2 ^ 5 + value.toNat := by
  refine ⟨?_, ?_, ?_, ?_⟩
  · intro text octets
    simpa using decode_eq_ok_iff
  · intro text fault
    simpa using decode_eq_error_iff
  · intro padded octets text h
    exact decode_of_encode h
  · intro vs hvs
    obtain ⟨hlast, hbits⟩ := regroup_bits Pending.isProper_empty hvs
    exact ⟨hbits, hlast, fun value hvalue => hlast.toNat_shifted hvalue⟩

/-- Padded to two quanta of eight letters, in mixed case, on two lines. -/
theorem decode_regroups_bits_mixed :
    ("mzxw 6yTb\nOi======".toList.filter fun c => !isSpace c).map Char.toUpper =
        encode true [0x66, 0x6F, 0x6F, 0x62, 0x61, 0x72] ∧
      decode "mzxw 6yTb\nOi======" = .ok [0x66, 0x6F, 0x6F, 0x62, 0x61, 0x72] := by
  have hwritten : ("mzxw 6yTb\nOi======".toList.filter fun c => !isSpace c).map Char.toUpper =
      encode true [0x66, 0x6F, 0x6F, 0x62, 0x61, 0x72] := by
    decide +kernel
  exact ⟨hwritten, decode_regroups_bits.2.2.1 true _ _ hwritten⟩

/-- Two bits are left over, and one of them is set. -/
example : decode "MZ" = .error .base32Trailing := by decide

end FieldLink.Base32
