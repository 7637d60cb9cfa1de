import FieldLink.Proofs.ContextUse

/-!
# Sealing into a buffer of the caller

Whatever can be refused is refused before anything was touched; what is sealed is the frame that sealing gives
on its own, over the front of the buffer.
-/

namespace FieldLink.Frame

variable {c : SecurityContext} {text : Octets}

def afterSealing (c : SecurityContext) : SecurityContext :=
  if c.frameKey.isSome then { c with sent := c.sent + 1 } else c

private theorem afterSealing_of_keyless (hkey : c.frameKey = none) : afterSealing c = c := by
  rw [afterSealing, hkey]
  rfl

private theorem afterSealing_of_key {key : Key} (hkey : c.frameKey = some key) :
    afterSealing c = { c with sent := c.sent + 1 } := by
  rw [afterSealing, hkey]
  rfl

private theorem exists_frame (htext : text.length ≤ Gcm.maxLength)
    (hunspent : c.frameKey.isSome = true → c.sent ≠ UInt64.ofNat (2 ^ 64 - 1)) (source : RandomSource) :
    ∃ frame rest, frame.length = sealedLength c text.length ∧
      sealText c text source = (.ok frame, afterSealing c, rest) ∧
      ∀ buffer : Octets, sealedLength c text.length ≤ buffer.length → sealInto c text buffer source =
        (.ok (sealedLength c text.length), frame ++ buffer.drop (sealedLength c text.length), afterSealing c, rest) := by
  cases hkey : c.frameKey with
  | none =>
    rw [sealedLength_of_keyless hkey, afterSealing_of_keyless hkey]
    exact ⟨text, source, rfl, sealText_of_keyless hkey text source, fun buffer hroom =>
      sealInto_of_keyless hkey hroom source⟩
  | some key =>
    have hsent := hunspent (by rw [hkey]; rfl)
    rw [sealedLength_of_key hkey, afterSealing_of_key hkey]
    exact ⟨_, _, length_sealedWith key _ (RandomSource.length_draw vectorLength source) text,
      sealText_of_key hkey hsent htext source, fun buffer hroom => sealInto_of_key hkey hroom hsent htext source⟩

/-- Sealing into a buffer leaves buffer, context and source as they are where the buffer is too short, of which it says
how long it had to be, and where no counter is left, which happens to no context without a key. Everywhere else it
writes the frame that sealing gives on its own and leaves what follows it, and both move counter and source alike. -/
theorem sealInto_all_or_nothing (c : SecurityContext) (text buffer : Octets) (source : RandomSource)
    (htext : text.length ≤ 2 ^ 36) :
    let needed := sealedLength c text.length
    (buffer.length < needed →
      sealInto c text buffer source = (.error (.bufferTooSmall needed buffer.length), buffer, c, source)) ∧
    (needed ≤ buffer.length → c.frameKey.isSome = true → c.sent.toNat = 2 ^ 64 - 1 →
      sealInto c text buffer source = (.error (.invalidArgument .counterExhausted), buffer, c, source)) ∧
    (needed ≤ buffer.length → (c.frameKey.isSome = true → c.sent.toNat ≠ 2 ^ 64 - 1) →
      ∃ frame rest, frame.length = needed ∧ sealText c text source = (.ok frame, afterSealing c, rest) ∧
        sealInto c text buffer source = (.ok needed, frame ++ buffer.drop needed, afterSealing c, rest)) ∧
    (c.InUse → c.sent.toNat = 2 ^ 64 - 1 → c.frameKey.isSome = true) := by
  intro needed
  have hspent_iff : c.sent = UInt64.ofNat (2 ^ 64 - 1) ↔ c.sent.toNat = 2 ^ 64 - 1 := UInt64.toNat_inj.symm
  refine ⟨fun hshort => sealInto_of_short hshort source, ?_, ?_, ?_⟩
  · intro hroom hsome hspent
    obtain ⟨key, hkey⟩ := Option.isSome_iff_exists.mp hsome
    exact sealInto_of_spent hkey (sealedLength_of_key hkey text.length ▸ hroom) (hspent_iff.mpr hspent) source
  · intro hroom hunspent
    obtain ⟨frame, rest, hlength, hown, hinto⟩ :=
      exists_frame htext (fun hsome => mt hspent_iff.mp (hunspent hsome)) source
    exact ⟨frame, rest, hlength, hown, hinto buffer hroom⟩
  · intro huse hspent
    by_contra hkeyless
    rw [huse.sent_of_keyless (Option.not_isSome_iff_eq_none.mp hkeyless)] at hspent
    cases hspent

/-- A buffer one octet too short, the last counter used up, and a buffer with three octets to spare. -/
theorem sealInto_all_or_nothing_greeting :
    let key : Key := ⟨List.replicate 32 0x42, rfl⟩
    let c : SecurityContext := ⟨none, some key, 6, none⟩
    let spent : SecurityContext := { c with sent := UInt64.ofNat (2 ^ 64 - 1) }
    let text : Octets := [0x68, 0x69]
    let filled (length : Nat) : Octets := List.replicate length 0xEE
    let source := RandomSource.cycle [7, 9]
    sealInto c text (filled 39) source = (.error (.bufferTooSmall 40 39), filled 39, c, source) ∧
    sealInto spent text (filled 40) source = (.error (.invalidArgument .counterExhausted), filled 40, spent, source) ∧
    ∃ frame rest, frame.length = 40 ∧ sealText c text source = (.ok frame, { c with sent := 7 }, rest) ∧
      sealInto c text (filled 43) source = (.ok 40, frame ++ filled 3, { c with sent := 7 }, rest) := by
  intro key c spent text filled source
  refine ⟨(sealInto_all_or_nothing c text (filled 39) source (by decide)).1 (by decide),
    (sealInto_all_or_nothing spent text (filled 40) source (by decide)).2.1 (by decide) rfl (by decide), ?_⟩
  exact (sealInto_all_or_nothing c text (filled 43) source (by decide)).2.2.1 (by decide) (fun _ => by decide)

end FieldLink.Frame
