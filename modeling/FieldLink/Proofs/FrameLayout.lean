import FieldLink.Frame
import Mathlib.Data.List.Basic

/-!
# Where the parts of a sealed frame lie

Sealing writes them one after another into a buffer, and opening cuts them out of one again; both are put here
into the form of an equation between octet strings.
-/

namespace FieldLink

namespace Octets

private theorem overwrite_append {front : Octets} {start : Nat} (h : start = front.length)
    (rest octets : Octets) :
    (front ++ rest).overwrite start octets = front ++ octets ++ rest.drop octets.length := by
  subst h
  simp [overwrite, List.drop_append]

private theorem take_append_slice (octets : Octets) {start stop : Nat} (h : start ≤ stop) :
    octets.take start ++ octets.slice start stop = octets.take stop := by
  have hfront : (octets.take stop).take start = octets.take start := by
    rw [List.take_take, Nat.min_eq_left h]
  rw [slice, ← hfront, List.take_append_drop]

theorem length_slice (octets : Octets) {start stop : Nat} (h : stop ≤ octets.length) :
    (octets.slice start stop).length = stop - start := by
  simp [slice, Nat.min_eq_left h]

theorem slice_append {front middle : Octets} {start stop : Nat} (hstart : start = front.length)
    (hstop : stop = front.length + middle.length) (rest : Octets) :
    (front ++ middle ++ rest).slice start stop = middle := by
  have hlength : stop = (front ++ middle).length := by simp [hstop]
  rw [slice, hlength, List.take_left', hstart, List.drop_left']
  all_goals rfl

end Octets

namespace Gcm

variable {cipher : Octets → Octets}

private theorem length_keystream (hcipher : ∀ block, (cipher block).length = 16) (iv : Octets)
    (blocks : Nat) : (keystream cipher iv blocks).length = 16 * blocks := by
  have hsum : ∀ indices : List Nat,
      (indices.flatMap fun i => cipher (counterBlock iv (i + 2))).length = 16 * indices.length := by
    intro indices
    induction indices with
    | nil => rfl
    | cons i indices ih => simp only [List.flatMap_cons, List.length_append, hcipher, ih,
        List.length_cons]; omega
  rw [keystream, hsum, List.length_range]

theorem length_crypt (hcipher : ∀ block, (cipher block).length = 16) (iv text : Octets) :
    (crypt cipher iv text).length = text.length := by
  have hstream := length_keystream hcipher iv ((text.length + 15) / 16)
  simp only [crypt, Octets.xor, List.length_zipWith, hstream]
  omega

theorem xor_xor_cancel (text stream : Octets) (h : text.length ≤ stream.length) :
    Octets.xor (Octets.xor text stream) stream = text := by
  induction text generalizing stream with
  | nil => rfl
  | cons octet text ih =>
    cases stream with
    | nil => simp at h
    | cons key stream =>
      have hrest := ih stream (by simpa using h)
      simp only [Octets.xor, List.zipWith_cons_cons] at hrest ⊢
      rw [hrest, UInt8.xor_assoc, UInt8.xor_self, UInt8.xor_zero]

/-- The same keystream taken twice is no change. -/
theorem crypt_crypt (hcipher : ∀ block, (cipher block).length = 16) (iv text : Octets) :
    crypt cipher iv (crypt cipher iv text) = text := by
  have hlength := length_crypt hcipher iv text
  have hstream := length_keystream hcipher iv ((text.length + 15) / 16)
  rw [crypt, hlength, crypt]
  apply xor_xor_cancel
  rw [hstream]
  omega

theorem length_tag (hcipher : ∀ block, (cipher block).length = 16) (iv header body : Octets) :
    (tag cipher iv header body).length = 16 := by
  simp [tag, Octets.xor, blockOf, hcipher]

end Gcm

namespace SecurityContext

variable {c : SecurityContext}

private theorem advance_of_spent (h : c.sent = UInt64.ofNat (2 ^ 64 - 1)) :
    c.advance = .error (.invalidArgument .counterExhausted) := by
  rw [advance, if_pos h]

private theorem advance_of_unspent (h : c.sent ≠ UInt64.ofNat (2 ^ 64 - 1)) :
    c.advance = .ok { c with sent := c.sent + 1 } := by
  rw [advance, if_neg h]

theorem sent_lt_of_unspent (h : c.sent ≠ UInt64.ofNat (2 ^ 64 - 1)) : c.sent < c.sent + 1 := by
  have hne : c.sent.toNat ≠ 2 ^ 64 - 1 := fun heq => h (UInt64.toNat_inj.mp heq)
  have hlt := c.sent.toNat_lt
  rw [UInt64.lt_iff_toNat_lt, UInt64.toNat_add]
  simp only [UInt64.reduceToNat]
  omega

end SecurityContext

namespace Frame

@[simp] theorem length_header (counter : UInt64) : (header counter).length = headerLength := by
  simp [header, headerLength]

theorem parts_append {frame : Octets} (h : overhead ≤ frame.length) :
    frame.take headerLength ++ vectorOf frame ++ bodyOf frame ++ tagOf frame = frame := by
  have hstart : bodyStart ≤ frame.length - tagLength := by
    simp only [overhead, bodyStart, headerLength, vectorLength, tagLength] at h ⊢
    omega
  rw [vectorOf, Octets.take_append_slice _ (by decide), bodyOf,
    Octets.take_append_slice _ hstart, tagOf, List.take_append_drop]

theorem length_vectorOf {frame : Octets} (h : overhead ≤ frame.length) :
    (vectorOf frame).length = vectorLength := by
  rw [vectorOf, Octets.length_slice]
  · rfl
  · exact Nat.le_trans (by decide) h

theorem length_bodyOf (frame : Octets) :
    (bodyOf frame).length = frame.length - overhead := by
  rw [bodyOf, Octets.length_slice _ (Nat.sub_le _ _)]
  simp only [overhead, bodyStart, headerLength, vectorLength, tagLength]
  omega

theorem bodyOf_append {front body tag : Octets} (hfront : front.length = bodyStart)
    (htag : tag.length = tagLength) : bodyOf (front ++ body ++ tag) = body := by
  apply Octets.slice_append
  · exact hfront.symm
  · simp only [List.length_append, htag, hfront]
    omega

private theorem overwrite_bodyOf {frame body : Octets} (h : overhead ≤ frame.length)
    (hbody : body.length = (bodyOf frame).length) :
    frame.overwrite bodyStart body =
      frame.take headerLength ++ vectorOf frame ++ body ++ tagOf frame := by
  have hhead : (frame.take headerLength).length = headerLength :=
    List.length_take_of_le (Nat.le_trans (by decide) h)
  have hfront : bodyStart = (frame.take headerLength ++ vectorOf frame).length := by
    rw [List.length_append, hhead, length_vectorOf h, bodyStart]
  conv_lhs => rw [← parts_append h, List.append_assoc _ (bodyOf frame)]
  rw [Octets.overwrite_append hfront, hbody, List.drop_left]

/-- The frame of a text under a key, a counter and an initialisation vector. -/
def sealedWith (key : Key) (counter : UInt64) (vector text : Octets) : Octets :=
  let cipher := Aes.encrypt key.octets
  let body := Gcm.crypt cipher vector text
  header counter ++ vector ++ body ++ Gcm.tag cipher vector (header counter) body

/-- The text that a frame has under a key, for a receiver with a watermark. -/
def opened? (key : Key) (frame : Octets) (watermark : UInt64) : Option Octets :=
  let cipher := Aes.encrypt key.octets
  if isAdmissible frame watermark ∧ (bodyOf frame).length ≤ Gcm.maxLength + 16 ∧
      Gcm.tag cipher (vectorOf frame) (frame.take headerLength) (bodyOf frame) = tagOf frame then
    some (Gcm.crypt cipher (vectorOf frame) (bodyOf frame))
  else none

variable {c : SecurityContext} {key : Key}

private theorem overwrite_parts (buffer : Octets) {head vector text body : Octets}
    (hhead : head.length = headerLength) (hvector : vector.length = vectorLength)
    (hbody : body.length = text.length) (tag : Octets) :
    ((((buffer.overwrite 0 head).overwrite headerLength vector).overwrite bodyStart text).overwrite
        bodyStart body).overwrite (bodyStart + body.length) tag =
      head ++ vector ++ body ++ tag ++
        buffer.drop (headerLength + vectorLength + text.length + tag.length) := by
  have hfront : bodyStart = (head ++ vector).length := by
    rw [List.length_append, hhead, hvector, bodyStart]
  have hbodyEnd : bodyStart + body.length = (head ++ vector ++ body).length := by
    rw [List.length_append, hfront]
  rw [show buffer.overwrite 0 head = head ++ buffer.drop head.length by simp [Octets.overwrite],
    Octets.overwrite_append hhead.symm, Octets.overwrite_append hfront,
    List.append_assoc _ text, Octets.overwrite_append hfront, hbody, List.drop_left, ← hbody,
    Octets.overwrite_append hbodyEnd]
  simp only [List.drop_drop, hhead, hvector, hbody]

theorem sealedLength_of_key (hkey : c.frameKey = some key) (length : Nat) :
    sealedLength c length = length + overhead := by
  simp [sealedLength, hkey]

theorem sealedLength_of_keyless (hkey : c.frameKey = none) (length : Nat) : sealedLength c length = length := by
  simp [sealedLength, hkey]

theorem sealInto_of_short {text buffer : Octets} (h : buffer.length < sealedLength c text.length)
    (source : RandomSource) :
    sealInto c text buffer source =
      (.error (.bufferTooSmall (sealedLength c text.length) buffer.length), buffer, c, source) := by
  simp only [sealInto, if_pos h]

theorem sealInto_of_keyless (hkey : c.frameKey = none) {text buffer : Octets} (hbuffer : text.length ≤ buffer.length)
    (source : RandomSource) :
    sealInto c text buffer source = (.ok text.length, text ++ buffer.drop text.length, c, source) := by
  simp only [sealInto, sealedLength_of_keyless hkey, if_neg (Nat.not_lt.2 hbuffer), hkey]
  simp [Octets.overwrite]

theorem sealInto_of_spent (hkey : c.frameKey = some key) {text buffer : Octets}
    (hbuffer : text.length + overhead ≤ buffer.length) (hsent : c.sent = UInt64.ofNat (2 ^ 64 - 1))
    (source : RandomSource) :
    sealInto c text buffer source = (.error (.invalidArgument .counterExhausted), buffer, c, source) := by
  have hneeded := sealedLength_of_key hkey text.length
  simp only [sealInto, hneeded, if_neg (Nat.not_lt.2 hbuffer), hkey, SecurityContext.advance_of_spent hsent]

/-- A text that is too long has taken a counter and a vector when the cipher refuses it. -/
theorem exists_sealInto_of_long (hkey : c.frameKey = some key) {text buffer : Octets}
    (hbuffer : text.length + overhead ≤ buffer.length) (hsent : c.sent ≠ UInt64.ofNat (2 ^ 64 - 1))
    (hlong : Gcm.maxLength < text.length) (source : RandomSource) :
    ∃ after, sealInto c text buffer source = (.error (.invalidArgument .textTooLong), after,
      { c with sent := c.sent + 1 }, (source.draw vectorLength).2) := by
  have hneeded := sealedLength_of_key hkey text.length
  have hadvance := SecurityContext.advance_of_unspent hsent
  simp only [sealInto, hneeded, if_neg (Nat.not_lt.2 hbuffer), hkey, hadvance, Gcm.encrypt?, if_pos hlong]
  exact ⟨_, rfl⟩

/-- Sealing writes the frame over the front of the buffer and leaves what follows. -/
theorem sealInto_of_key (hkey : c.frameKey = some key) {text buffer : Octets}
    (hbuffer : text.length + overhead ≤ buffer.length)
    (hsent : c.sent ≠ UInt64.ofNat (2 ^ 64 - 1)) (htext : text.length ≤ Gcm.maxLength)
    (source : RandomSource) :
    sealInto c text buffer source =
      (.ok (text.length + overhead),
        sealedWith key (c.sent + 1) (source.draw vectorLength).1 text ++
          buffer.drop (text.length + overhead),
        { c with sent := c.sent + 1 }, (source.draw vectorLength).2) := by
  have hneeded := sealedLength_of_key hkey text.length
  have hadvance := SecurityContext.advance_of_unspent hsent
  have hcipher := Aes.length_encrypt key.octets
  have hwritten : headerLength + vectorLength + text.length + 16 = text.length + overhead := by
    simp only [overhead, tagLength]
    omega
  simp only [sealInto, hneeded, if_neg (Nat.not_lt.2 hbuffer), hkey, hadvance, Gcm.encrypt?,
    if_neg (Nat.not_lt.2 htext)]
  rw [overwrite_parts buffer (length_header _) (RandomSource.length_draw _ _)
    (Gcm.length_crypt hcipher _ _), Gcm.length_tag hcipher, hwritten, sealedWith]

theorem length_sealedWith (key : Key) (counter : UInt64) {vector : Octets}
    (hvector : vector.length = vectorLength) (text : Octets) :
    (sealedWith key counter vector text).length = text.length + overhead := by
  have hcipher := Aes.length_encrypt key.octets
  simp only [sealedWith, List.length_append, length_header, hvector, Gcm.length_crypt hcipher,
    Gcm.length_tag hcipher, overhead, tagLength]
  omega

theorem sealText_of_key (hkey : c.frameKey = some key) {text : Octets}
    (hsent : c.sent ≠ UInt64.ofNat (2 ^ 64 - 1)) (htext : text.length ≤ Gcm.maxLength)
    (source : RandomSource) :
    sealText c text source =
      (.ok (sealedWith key (c.sent + 1) (source.draw vectorLength).1 text),
        { c with sent := c.sent + 1 }, (source.draw vectorLength).2) := by
  have hneeded := sealedLength_of_key hkey text.length
  have hframe := length_sealedWith key (c.sent + 1) (RandomSource.length_draw vectorLength source) text
  simp only [sealText, hneeded]
  rw [sealInto_of_key hkey (by simp) hsent htext]
  simp [Except.map, ← hframe]

theorem sealText_of_keyless (hkey : c.frameKey = none) (text : Octets) (source : RandomSource) :
    sealText c text source = (.ok text, c, source) := by
  simp only [sealText, sealedLength_of_keyless hkey]
  rw [sealInto_of_keyless hkey (by simp)]
  simp [Except.map]

/-- Opening in place succeeds exactly where the frame has a text, and otherwise changes nothing. -/
theorem openInPlace_of_key (hkey : c.frameKey = some key) (buffer : Octets) (watermark : UInt64) :
    openInPlace c buffer watermark =
      match opened? key buffer watermark with
      | some text => (.ok (), text, counterOf buffer)
      | none => (.error .invalidResponse, buffer, watermark) := by
  have hcipher := Aes.length_encrypt key.octets
  simp only [openInPlace, hkey, opened?]
  by_cases hadmissible : isAdmissible buffer watermark
  · have hlength : overhead ≤ buffer.length := by
      simp only [isAdmissible, Bool.decide_and, Bool.and_eq_true, decide_eq_true_eq] at hadmissible
      exact hadmissible.1
    have hback : buffer.overwrite bodyStart (bodyOf buffer) = _ := overwrite_bodyOf hlength rfl
    rw [parts_append hlength] at hback
    simp only [hadmissible, if_true, true_and, Gcm.decryptInPlace]
    by_cases hlong : Gcm.maxLength + 16 < (bodyOf buffer).length
    · simp [hlong, hback, Nat.not_le.2 hlong]
    · simp only [hlong, if_false, Nat.not_lt.1 hlong, true_and]
      by_cases htag : Gcm.tag (Aes.encrypt key.octets) (vectorOf buffer)
          (buffer.take headerLength) (bodyOf buffer) = tagOf buffer
      · have hfront : (buffer.take headerLength ++ vectorOf buffer).length = bodyStart := by
          rw [List.length_append, length_vectorOf hlength,
            List.length_take_of_le (Nat.le_trans (by decide) hlength), bodyStart]
        have htagLength : (tagOf buffer).length = tagLength := by
          rw [← htag, Gcm.length_tag hcipher, tagLength]
        have hmoved (octets text : Octets) : (octets.overwrite 0 text).take text.length = text := by
          simp [Octets.overwrite]
        simp only [htag, if_true]
        rw [overwrite_bodyOf hlength (Gcm.length_crypt hcipher _ _), bodyOf_append hfront htagLength,
          hmoved]
      · simp [htag, hback]
  · simp [hadmissible]

theorem isAdmissible_of_opened? {key : Key} {frame text : Octets} {watermark : UInt64}
    (h : opened? key frame watermark = some text) : isAdmissible frame watermark = true := by
  simp only [opened?] at h
  split at h
  · next hopened => exact hopened.1
  · cases h

theorem lt_counterOf_of_isAdmissible {frame : Octets} {watermark : UInt64}
    (h : isAdmissible frame watermark = true) : watermark < counterOf frame := by
  simp only [isAdmissible, decide_eq_true_eq] at h
  exact h.2.2.2

end Frame
end FieldLink
