import FieldLink.Proofs.ConnectionKeys
import FieldLink.Proofs.FrameLayout

/-!
# The contexts that a connection can have at any time

Keys and code settings are those it was set up with, and its counter moves only where frames are sealed.
-/

namespace FieldLink

private theorem Frame.context_sealInto_cases (c : SecurityContext) (text buffer : Octets) (source : RandomSource) :
    (sealInto c text buffer source).2.2.1 = c ∨
      c.frameKey.isSome = true ∧ (sealInto c text buffer source).2.2.1 = { c with sent := c.sent + 1 } := by
  by_cases hshort : buffer.length < sealedLength c text.length
  · exact .inl (by rw [sealInto_of_short hshort])
  · have hroom := Nat.not_lt.mp hshort
    cases hkey : c.frameKey with
    | none =>
      rw [sealedLength_of_keyless hkey] at hroom
      exact .inl (by rw [sealInto_of_keyless hkey hroom])
    | some key =>
      rw [sealedLength_of_key hkey] at hroom
      by_cases hspent : c.sent = UInt64.ofNat (2 ^ 64 - 1)
      · exact .inl (by rw [sealInto_of_spent hkey hroom hspent])
      · refine .inr ⟨rfl, ?_⟩
        by_cases htext : text.length ≤ Gcm.maxLength
        · rw [sealInto_of_key hkey hroom hspent htext, hkey]
        · obtain ⟨after, hrefused⟩ := exists_sealInto_of_long hkey hroom hspent (Nat.not_le.mp htext) source
          rw [hrefused, hkey]

namespace SecurityContext

/-- The contexts of connections: one without protection or one made from settings, after any texts were sealed with it
and its counter was reset any number of times. -/
inductive InUse : SecurityContext → Prop where
  | disabled : InUse .disabled
  | ofSettings {settings : SecuritySettings} {c : SecurityContext} (h : ofSettings settings = .ok c) : InUse c
  | sealInto {c : SecurityContext} (h : InUse c) (text buffer : Octets) (source : RandomSource) :
      InUse (Frame.sealInto c text buffer source).2.2.1
  | resetCounter {c : SecurityContext} (h : InUse c) : InUse c.resetCounter

variable {c : SecurityContext}

theorem InUse.sent_of_keyless (h : c.InUse) (hkey : c.frameKey = none) : c.sent = 0 := by
  induction h with
  | disabled => rfl
  | ofSettings hmade => exact (ofSettings_eq_ok_iff.mp hmade).2.2.2
  | @sealInto c _ text buffer source ih =>
    rcases Frame.context_sealInto_cases c text buffer source with hsame | ⟨hsome, hmoved⟩
    · rw [hsame] at hkey ⊢
      exact ih hkey
    · rw [hmoved] at hkey
      rw [hkey] at hsome
      cases hsome
  | resetCounter => rfl

theorem InUse.check_codes (h : c.InUse) {codes : CodeSettings} (hcodes : c.codes = some codes) :
    codes.check = .ok () := by
  induction h with
  | disabled => cases hcodes
  | ofSettings hmade => exact check_of_ofSettings hmade hcodes
  | @sealInto c _ text buffer source ih =>
    refine ih ?_
    rcases Frame.context_sealInto_cases c text buffer source with hsame | ⟨-, hmoved⟩
    · rw [← hcodes, hsame]
    · rw [← hcodes, hmoved]
  | resetCounter _ ih => exact ih hcodes

end SecurityContext
end FieldLink
