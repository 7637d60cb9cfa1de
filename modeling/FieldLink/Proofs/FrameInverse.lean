import FieldLink.Proofs.FrameLayout
import FieldLink.Proofs.OctetNumbers

/-!
# Sealing and opening undo each other

A frame that was sealed opens to its text, and a frame that opens is octet for octet the one that sealing makes
of its counter, vector and text, so that no octet of it is idle.
-/

namespace FieldLink.Frame

variable {key : Key} {counter watermark : UInt64} {vector text frame : Octets}

private theorem toNat_counterOf (h : overhead ≤ frame.length) :
    (counterOf frame).toNat = (frame.slice 2 headerLength).toNat := by
  have hlength : (frame.slice 2 headerLength).length = 8 := by
    rw [Octets.length_slice _ (Nat.le_trans (by decide) h)]
    rfl
  have hlt := Octets.toNat_lt (frame.slice 2 headerLength)
  rw [hlength] at hlt
  exact UInt64.toNat_ofNat_of_lt' hlt

private theorem header_counterOf (hlength : overhead ≤ frame.length) (hversion : frame.getD 0 0 = version)
    (hflags : frame.getD 1 0 = 0) : header (counterOf frame) = frame.take headerLength := by
  have hcounter : (frame.slice 2 headerLength).length = 8 := by
    rw [Octets.length_slice _ (Nat.le_trans (by decide) hlength)]
    rfl
  have hdigits := Octets.bigEndian_toNat (frame.slice 2 headerLength)
  rw [hcounter] at hdigits
  rw [header, toNat_counterOf hlength, hdigits]
  have htwo : 2 ≤ frame.length := Nat.le_trans (by decide) hlength
  obtain ⟨first, tail, rfl⟩ := List.exists_cons_of_length_pos (Nat.lt_of_lt_of_le Nat.two_pos htwo)
  obtain ⟨second, rest, rfl⟩ := List.exists_cons_of_length_pos (Nat.le_of_succ_le_succ htwo)
  simp only [List.getD_cons_zero, List.getD_cons_succ] at hversion hflags
  subst hversion hflags
  simp [Octets.slice, headerLength]

private theorem counterOf_header (counter : UInt64) (rest : Octets) :
    counterOf (header counter ++ rest) = counter := by
  have hslice : (header counter ++ rest).slice 2 headerLength = Octets.bigEndian 8 counter.toNat := by
    have hsplit : header counter = [version, 0] ++ Octets.bigEndian 8 counter.toNat := rfl
    rw [hsplit]
    exact Octets.slice_append rfl (by simp [headerLength]) rest
  rw [counterOf, hslice, Octets.toNat_bigEndian _ _ counter.toNat_lt, UInt64.ofNat_toNat]

theorem counterOf_sealedWith (key : Key) (counter : UInt64) (vector text : Octets) :
    counterOf (sealedWith key counter vector text) = counter := by
  simp only [sealedWith, List.append_assoc]
  exact counterOf_header counter _

private theorem vectorOf_sealedWith (key : Key) (counter : UInt64)
    (hvector : vector.length = vectorLength) (text : Octets) :
    vectorOf (sealedWith key counter vector text) = vector := by
  simp only [sealedWith, List.append_assoc]
  rw [← List.append_assoc]
  exact Octets.slice_append (by simp) (by simp [hvector, bodyStart]) _

/-- A frame above the watermark opens to the text that was sealed. -/
theorem opened?_sealedWith (hvector : vector.length = vectorLength)
    (htext : text.length ≤ Gcm.maxLength) (hcounter : watermark < counter) :
    opened? key (sealedWith key counter vector text) watermark = some text := by
  have hcipher := Aes.length_encrypt key.octets
  have hlength := length_sealedWith key counter hvector text
  have hfresh : isAdmissible (sealedWith key counter vector text) watermark = true := by
    simp only [isAdmissible, decide_eq_true_eq]
    exact ⟨by omega, rfl, rfl, by rwa [counterOf_sealedWith]⟩
  have hfront : (header counter ++ vector).length = bodyStart := by
    rw [List.length_append, length_header, hvector, bodyStart]
  have hhead : (sealedWith key counter vector text).take headerLength = header counter := by
    simp only [sealedWith, List.append_assoc]
    exact List.take_left' (length_header counter)
  have hiv := vectorOf_sealedWith key counter hvector text
  have hbody : bodyOf (sealedWith key counter vector text) =
      Gcm.crypt (Aes.encrypt key.octets) vector text :=
    bodyOf_append hfront (Gcm.length_tag hcipher ..)
  have htag : tagOf (sealedWith key counter vector text) =
      Gcm.tag (Aes.encrypt key.octets) vector (header counter)
        (Gcm.crypt (Aes.encrypt key.octets) vector text) := by
    apply List.drop_left'
    simp only [sealedWith, List.length_append, Gcm.length_tag hcipher, tagLength]
    omega
  have hshort := Gcm.length_crypt hcipher vector text
  simp only [opened?, hfresh, hhead, hiv, hbody, htag, true_and, and_true]
  rw [if_pos (by omega), Gcm.crypt_crypt hcipher]

private theorem length_of_opened? (h : opened? key frame watermark = some text) :
    text.length = (bodyOf frame).length := by
  simp only [opened?] at h
  split at h
  · rw [← Option.some.inj h, Gcm.length_crypt (Aes.length_encrypt key.octets)]
  · cases h

/-- A frame that opens is the one that is sealed with its counter, vector and text. -/
theorem sealedWith_of_opened? (h : opened? key frame watermark = some text) :
    sealedWith key (counterOf frame) (vectorOf frame) text = frame := by
  have hcipher := Aes.length_encrypt key.octets
  simp only [opened?] at h
  split at h
  · next hopened =>
    obtain ⟨hadmissible, -, htag⟩ := hopened
    simp only [isAdmissible, decide_eq_true_eq] at hadmissible
    obtain ⟨hlength, hversion, hflags, -⟩ := hadmissible
    have hbody : Gcm.crypt (Aes.encrypt key.octets) (vectorOf frame) text = bodyOf frame := by
      rw [← Option.some.inj h, Gcm.crypt_crypt hcipher]
    rw [sealedWith, header_counterOf hlength hversion hflags, hbody, htag]
    exact parts_append hlength
  · cases h

theorem openText_of_key {c : SecurityContext} (hkey : c.frameKey = some key) (frame : Octets)
    (watermark : UInt64) :
    openText c frame watermark =
      match opened? key frame watermark with
      | some text => (.ok text, counterOf frame)
      | none => (.error .invalidResponse, watermark) := by
  rw [openText, openInPlace_of_key hkey]
  cases opened? key frame watermark <;> rfl

/-- Under one key, a text of permitted length is sealed into a frame with 38 octets more, which opens to that
text for every receiver whose watermark is not above the sender's counter and moves the watermark to the
counter of the frame. Conversely a frame that opens is the frame that a sender one counter before makes of
its text when the random source yields its vector. -/
theorem sealText_openText_inverse (key : Key) :
    (∀ (sender receiver : SecurityContext) (text : Octets) (source : RandomSource) (watermark : UInt64),
      sender.frameKey = some key → receiver.frameKey = some key → text.length ≤ Gcm.maxLength →
      sender.sent.toNat < 2 ^ 64 - 1 → watermark ≤ sender.sent →
      ∃ frame, sealText sender text source =
          (.ok frame, { sender with sent := sender.sent + 1 }, (source.draw vectorLength).2) ∧
        frame.length = text.length + 38 ∧ counterOf frame = sender.sent + 1 ∧
        vectorOf frame = (source.draw vectorLength).1 ∧
        openText receiver frame watermark = (.ok text, counterOf frame)) ∧
    (∀ (sender receiver : SecurityContext) (frame text : Octets) (source : RandomSource)
        (watermark after : UInt64),
      sender.frameKey = some key → receiver.frameKey = some key →
      (bodyOf frame).length ≤ Gcm.maxLength → openText receiver frame watermark = (.ok text, after) →
      sender.sent = after - 1 → (source.draw vectorLength).1 = vectorOf frame →
      after = counterOf frame ∧ sealText sender text source =
        (.ok frame, { sender with sent := after }, (source.draw vectorLength).2)) := by
  constructor
  · intro sender receiver text source watermark hsender hreceiver htext hsent hwatermark
    have hvector := RandomSource.length_draw vectorLength source
    have hcounter : sender.sent ≠ UInt64.ofNat (2 ^ 64 - 1) := by
      rintro h
      rw [h] at hsent
      exact absurd hsent (by decide)
    have hlt : watermark < sender.sent + 1 := by
      rw [UInt64.le_iff_toNat_le] at hwatermark
      rw [UInt64.lt_iff_toNat_lt, UInt64.toNat_add]
      simp only [UInt64.reduceToNat]
      omega
    refine ⟨_, sealText_of_key hsender hcounter htext source, length_sealedWith _ _ hvector _,
      counterOf_sealedWith .., vectorOf_sealedWith _ _ hvector _, ?_⟩
    rw [openText_of_key hreceiver, opened?_sealedWith hvector htext hlt]
  · intro sender receiver frame text source watermark after hsender hreceiver hbody hopen hsent hsource
    rw [openText_of_key hreceiver] at hopen
    cases hopened : opened? key frame watermark with
    | none => simp [hopened] at hopen
    | some opened =>
      simp only [hopened, Prod.mk.injEq, Except.ok.injEq] at hopen
      obtain ⟨rfl, rfl⟩ := hopen
      have hlt := lt_counterOf_of_isAdmissible (isAdmissible_of_opened? hopened)
      have hpositive := UInt64.lt_iff_toNat_lt.1 hlt
      have hbefore : sender.sent ≠ UInt64.ofNat (2 ^ 64 - 1) := by
        intro heq
        have hcounter : counterOf frame = 0 := by
          rw [← UInt64.sub_add_cancel (counterOf frame) 1, ← hsent, heq]
          rfl
        simp [hcounter] at hpositive
      have htext := length_of_opened? hopened
      refine ⟨rfl, ?_⟩
      rw [sealText_of_key hsender hbefore (htext ▸ hbody), hsource, hsent, UInt64.sub_add_cancel,
        sealedWith_of_opened? hopened]

theorem sealText_openText_inverse_greeting :
    let key : Key := ⟨List.replicate 32 0x42, rfl⟩
    let c : SecurityContext := ⟨none, some key, 6, none⟩
    let text : Octets := [0x68, 0x69]
    let source := RandomSource.cycle [7, 9]
    ∃ frame, frame.length = 40 ∧ openText c frame 5 = (.ok text, 7) ∧
      (source.draw vectorLength).1 = vectorOf frame ∧
      sealText c text source = (.ok frame, { c with sent := 7 }, (source.draw vectorLength).2) := by
  intro key c text source
  obtain ⟨frame, hseal, hlength, hcounter, hvector, hopen⟩ :=
    (sealText_openText_inverse key).1 c c text source 5 rfl rfl (by decide) (by decide) (by decide)
  have hbody : (bodyOf frame).length ≤ Gcm.maxLength := by
    rw [length_bodyOf, hlength]
    decide
  rw [hcounter] at hopen
  have hback := (sealText_openText_inverse key).2 c c frame text source 5 7 rfl rfl hbody hopen rfl
    hvector.symm
  exact ⟨frame, hlength, hopen, hvector.symm, hback.2⟩

end FieldLink.Frame
