import FieldLink.JsonDocument
import Mathlib.Data.List.Basic

/-!
# Strings are read back from JSON texts, character by character

Every character is written as one unit that spells it alone: itself, a letter behind a backslash, or a code that
is no surrogate.
-/

namespace FieldLink.JsonReader

/-- A unit that spells one character whatever follows it. -/
def Spells (unit : JsonUnit) (c : Char) : Prop :=
  ∀ units, JsonUnit.characters? (unit :: units) = (JsonUnit.characters? units).map (c :: ·)

private theorem spells_plain (c : Char) : Spells (.plain c) c := fun _ => rfl

private theorem spells_escaped {c : Char} (h : c.toNat < 0x20) : Spells (.escaped c.toNat) c := by
  intro units
  have hhigh : JsonUnit.isHighSurrogate c.toNat = false := by
    rw [JsonUnit.isHighSurrogate, decide_eq_false_iff_not]
    omega
  have hlow : JsonUnit.isLowSurrogate c.toNat = false := by
    rw [JsonUnit.isLowSurrogate, decide_eq_false_iff_not]
    omega
  rw [JsonUnit.characters?.eq_def (.escaped c.toNat :: units)]
  simp only [hhigh, hlow, Bool.false_eq_true, if_false, Char.ofNat_toNat]

private theorem readUnits_letter {letter c : Char} (hletter : letter ≠ 'u') (hescape : escape? letter = some c)
    (rest : List Char) :
    readUnits ('\\' :: letter :: rest) = (readUnits rest).map fun read => (.plain c :: read.1, read.2) := by
  rw [readUnits, hescape]
  · cases readUnits rest with
    | none => rfl
    | some read => rfl
  · intro a b c d tail hu
    exact absurd hu hletter

private theorem readUnits_code {a b c d : Char} {code : Nat} (hcode : codeUnit? a b c d = some code)
    (rest : List Char) :
    readUnits ('\\' :: 'u' :: a :: b :: c :: d :: rest) =
      (readUnits rest).map fun read => (.escaped code :: read.1, read.2) := by
  rw [readUnits, hcode]
  cases readUnits rest with
  | none => rfl
  | some read => rfl

private theorem readUnits_plain {c : Char} (hquote : c ≠ '"') (hslash : c ≠ '\\') (hcontrol : ¬c.toNat < 0x20)
    (rest : List Char) :
    readUnits (c :: rest) = (readUnits rest).map fun read => (.plain c :: read.1, read.2) := by
  rw [readUnits]
  · rw [if_neg (not_or.mpr ⟨hslash, hcontrol⟩)]
  · exact hquote
  · intro a b c d tail hc
    exact absurd hc hslash
  · intro a tail hc
    exact absurd hc hslash

private theorem readUnits_quotedChar (c : Char) :
    ∃ unit, Spells unit c ∧ ∀ rest, readUnits (Document.quotedChar c ++ rest) =
      (readUnits rest).map fun read => (unit :: read.1, read.2) := by
  have hletter (letter : Char) (hne : letter ≠ 'u') (hescape : escape? letter = some c)
      (hquoted : Document.quotedChar c = ['\\', letter]) :
      ∃ unit, Spells unit c ∧ ∀ rest, readUnits (Document.quotedChar c ++ rest) =
        (readUnits rest).map fun read => (unit :: read.1, read.2) := by
    refine ⟨.plain c, spells_plain c, fun rest => ?_⟩
    rw [hquoted]
    exact readUnits_letter hne hescape rest
  by_cases hquote : c = '"'
  · subst hquote
    exact hletter '"' (by decide) (by decide) (by decide)
  by_cases hslash : c = '\\'
  · subst hslash
    exact hletter '\\' (by decide) (by decide) (by decide)
  by_cases hback : c = '\x08'
  · subst hback
    exact hletter 'b' (by decide) (by decide) (by decide)
  by_cases hform : c = '\x0c'
  · subst hform
    exact hletter 'f' (by decide) (by decide) (by decide)
  by_cases hline : c = '\n'
  · subst hline
    exact hletter 'n' (by decide) (by decide) (by decide)
  by_cases hreturn : c = '\r'
  · subst hreturn
    exact hletter 'r' (by decide) (by decide) (by decide)
  by_cases htab : c = '\t'
  · subst htab
    exact hletter 't' (by decide) (by decide) (by decide)
  simp only [Document.quotedChar, hquote, hslash, hback, hform, hline, hreturn, htab, if_false]
  by_cases hcontrol : c.toNat < 0x20
  · have hcode : codeUnit? '0' '0' (Hexadecimal.lowerDigit (c.toNat / 16))
        (Hexadecimal.lowerDigit (c.toNat % 16)) = some c.toNat := by
      have hzero : Hexadecimal.digitValue? '0' = some 0 := by decide
      rw [codeUnit?, hzero, Hexadecimal.lowerDigit_value _ (by omega),
        Hexadecimal.lowerDigit_value _ (by omega)]
      simp only [Option.bind_eq_bind, Option.bind_some, Option.pure_def, Option.some.injEq]
      omega
    refine ⟨.escaped c.toNat, spells_escaped hcontrol, fun rest => ?_⟩
    rw [if_pos hcontrol]
    exact readUnits_code hcode rest
  · refine ⟨.plain c, spells_plain c, fun rest => ?_⟩
    rw [if_neg hcontrol]
    exact readUnits_plain hquote hslash hcontrol rest

private theorem readUnits_quoted (text rest : List Char) :
    ∃ units, JsonUnit.characters? units = some text ∧
      readUnits (text.flatMap Document.quotedChar ++ '"' :: rest) = some (units, rest) := by
  induction text with
  | nil => exact ⟨[], rfl, rfl⟩
  | cons c text ih =>
    obtain ⟨units, hspelt, hread⟩ := ih
    obtain ⟨unit, hunit, hchar⟩ := readUnits_quotedChar c
    refine ⟨unit :: units, ?_, ?_⟩
    · rw [hunit, hspelt]
      rfl
    · rw [List.flatMap_cons, List.append_assoc, hchar, hread]
      rfl

/-- A string is read back from its quoted text, whatever follows. -/
theorem readString_quotedText (s : String) (rest : List Char) :
    ∃ units, JsonUnit.text? units = some s ∧
      readString (Document.quotedText s ++ rest) = some (units, rest) := by
  obtain ⟨units, hspelt, hread⟩ := readUnits_quoted s.toList rest
  refine ⟨units, ?_, ?_⟩
  · rw [JsonUnit.text?, hspelt, Option.map_some, String.ofList_toList]
  · rw [Document.quotedText, List.cons_append, List.cons_append, List.append_assoc, readString]
    exact hread

end FieldLink.JsonReader
