import FieldLink.Proofs.CborDocumentInverse
import FieldLink.Proofs.DoubleRounding

/-!
# Which floats go out again in the width in which they came

A single comes in as its shortest decimal and goes out as the single that has that decimal, so that a double of
so few digits loses its width.
-/

namespace FieldLink

theorem FloatValue.finite?_eq_some_iff {f : FloatFormat} {v : FloatValue f} {x : FiniteFloat f} :
    v.finite? = some x ↔ v = .finite x := by
  cases v <;> simp [finite?]

theorem asSingle_eq_some_iff {x : Double} {s : Single} :
    asSingle x = some s ↔
      FloatValue.convert .single (.finite x) = .finite s ∧ shortestDecimal (.finite s) = .finite x := by
  simp only [asSingle, Option.bind_eq_bind, Option.bind_eq_some_iff, FloatValue.finite?_eq_some_iff,
    Option.ite_none_right_eq_some, Option.some.injEq]
  constructor
  · rintro ⟨narrow, hnarrow, hvalue, rfl⟩
    exact ⟨hnarrow, hvalue⟩
  · rintro ⟨hnarrow, hvalue⟩
    exact ⟨s, hnarrow, hvalue, rfl⟩

/-- A single is found again by its shortest decimal, unless it is the one that is misread. -/
theorem asSingle_shortestDecimal {x : Double} {s : Single} (h : shortestDecimal (.finite s) = .finite x) :
    asSingle x = some s ↔ s.index ≠ FloatFormat.misreadSingle := by
  rw [asSingle_eq_some_iff, ← h]
  constructor
  · rintro ⟨hconvert, -⟩ hmisread
    rw [convert_shortestDecimal_misread hmisread] at hconvert
    have hnext := FloatValue.index_of_ofIndex hconvert
    omega
  · intro hs
    exact ⟨convert_shortestDecimal hs, rfl⟩

/-- A double that goes out in the width in which it came: if it equals a single, then not the misread one, and
otherwise no other single has it as its shortest decimal. -/
structure KeepsWidth (x : Double) : Prop where
  single : ∀ s, x.exactly? .single = some s → s.index ≠ FloatFormat.misreadSingle
  double : x.exactly? .single = none →
    ∀ s, shortestDecimal (.finite s) = .finite x → s.index = FloatFormat.misreadSingle

theorem keepsWidth_of_exactly? {x : Double} {s : Single} (h : x.exactly? .single = some s) :
    KeepsWidth x ↔ s.index ≠ FloatFormat.misreadSingle := by
  constructor
  · intro hkeeps
    exact hkeeps.single s h
  · intro hs
    refine ⟨fun other hother => ?_, fun hnone => ?_⟩
    · rw [h] at hother
      cases hother
      exact hs
    · rw [h] at hnone
      cases hnone

private theorem keepsWidth_of_not_exactly {x : Double} (h : x.exactly? .single = none) :
    KeepsWidth x ↔ asSingle x = none := by
  rw [Option.eq_none_iff_forall_ne_some]
  constructor
  · intro hkeeps s hs
    have hvalue := shortestDecimal_of_asSingle hs
    exact (asSingle_shortestDecimal hvalue).mp hs (hkeeps.double h s hvalue)
  · intro hnone
    refine ⟨fun s hs => ?_, fun _ s hvalue => ?_⟩
    · rw [h] at hs
      cases hs
    · by_contra hs
      exact hnone s ((asSingle_shortestDecimal hvalue).mpr hs)

instance (x : Double) : Decidable (KeepsWidth x) :=
  match h : x.exactly? .single with
  | some _ => decidable_of_iff _ (keepsWidth_of_exactly? h).symm
  | none => decidable_of_iff _ (keepsWidth_of_not_exactly h).symm

/-- Every finite float of CBOR has a place in a document, and goes out from there as it came if it keeps its
width. -/
theorem floatToDocument_finite (x : Double) :
    ∃ y, floatToDocument (.finite x) = .ok (.float y) ∧
      (floatToCbor y = .ok (.float (.finite x)) ↔ KeepsWidth x) := by
  cases hexactly : x.exactly? .single with
  | none =>
    refine ⟨x, ?_, ?_⟩
    · rw [floatToDocument, widened, hexactly]
      rfl
    · rw [keepsWidth_of_not_exactly hexactly, floatToCbor, hexactly]
      cases hsingle : asSingle x with
      | none => exact iff_of_true rfl rfl
      | some s =>
        -- A single equals no double that is not one.
        obtain ⟨y, hconvert, hback⟩ := FloatValue.convert_single s
        refine iff_of_false ?_ (by simp)
        intro heq
        rw [Option.elim_some, hconvert] at heq
        cases heq
        rw [hexactly] at hback
        cases hback
  | some s =>
    obtain ⟨y, hdecimal⟩ := exists_shortestDecimal s
    have hconvert := FiniteFloat.convert_of_exactly? hexactly
    refine ⟨y, ?_, ?_⟩
    · rw [floatToDocument, widened, hexactly, Option.elim_some, hdecimal]
      rfl
    · rw [keepsWidth_of_exactly? hexactly, ← asSingle_shortestDecimal hdecimal, floatToCbor]
      cases hsingle : asSingle y with
      | some other =>
        obtain ⟨z, hother, hback⟩ := FloatValue.convert_single other
        rw [Option.elim_some, hother]
        constructor
        · intro heq
          cases heq
          rw [hexactly] at hback
          exact hback.symm
        · intro heq
          cases heq
          rw [← hother, hconvert]
      | none =>
        -- Without its single the decimal goes out as it is, and that is only the float if it is no single.
        refine iff_of_false ?_ (by simp)
        rw [Option.elim_none]
        intro heq
        split at heq
        · cases heq
        · next hwide =>
          cases heq
          rw [hexactly] at hwide
          exact hwide rfl

end FieldLink
