import FieldLink.Proofs.AuthenticationTag
import FieldLink.Proofs.FrameInverse

/-!
# Sealed frames with one octet altered

A sealed frame with one octet altered is refused, wherever the octet stands. Two frames that differ in one octet
cannot both have the right tag: header, vector and ciphertext are under the tag, each in its own way, and a
frame that differs in the tag alone has the wrong one.
-/

namespace FieldLink

namespace Octets

variable {octets : Octets} {i start stop : Nat}

private theorem slice_set_of_lt (h : i < start) (b : UInt8) :
    slice (octets.set i b) start stop = octets.slice start stop := by
  rw [slice, List.take_set, List.drop_set, if_pos h, slice]

private theorem slice_set_of_le (h : stop ≤ i) (b : UInt8) :
    slice (octets.set i b) start stop = octets.slice start stop := by
  have hout : (octets.take stop).length ≤ i := Nat.le_trans (List.length_take_le ..) h
  rw [slice, List.take_set, List.set_eq_of_length_le hout, slice]

private theorem slice_set_of_ge (h : start ≤ i) (b : UInt8) :
    slice (octets.set i b) start stop = (octets.slice start stop).set (i - start) b := by
  rw [slice, List.take_set, List.drop_set, if_neg (Nat.not_lt.mpr h), slice]

end Octets

/-- The key of the polynomial hash: the zero block under the block cipher. -/
def Key.hashKey (key : Key) : BitVec 128 := Gcm.element (Aes.encrypt key.octets (List.replicate 16 0))

namespace Frame

def IsAuthentic (key : Key) (frame : Octets) : Prop :=
  Gcm.tag (Aes.encrypt key.octets) (vectorOf frame) (frame.take headerLength) (bodyOf frame) = tagOf frame

variable {key : Key} {frame text : Octets} {watermark : UInt64} {i : Nat} {b : UInt8}

private theorem isAuthentic_of_opened? (h : opened? key frame watermark = some text) : IsAuthentic key frame := by
  simp only [opened?] at h
  split at h
  · next hopened => exact hopened.2.2
  · cases h

private theorem overhead_le_of_opened? (h : opened? key frame watermark = some text) : overhead ≤ frame.length := by
  have hadmissible := isAdmissible_of_opened? h
  simp only [isAdmissible, decide_eq_true_eq] at hadmissible
  exact hadmissible.1

private theorem eq_of_parts_eq {other : Octets} (hlong : overhead ≤ frame.length) (hotherLong : overhead ≤ other.length)
    (header : frame.take headerLength = other.take headerLength) (vector : vectorOf frame = vectorOf other)
    (body : bodyOf frame = bodyOf other) (tag : tagOf frame = tagOf other) : frame = other := by
  rw [← parts_append hlong, header, vector, body, tag, parts_append hotherLong]

section Parts

-- Each part of a frame is as it was unless the octet that is replaced stands in it.

variable (frame) (b)

private theorem header_set_of_le (h : headerLength ≤ i) :
    (frame.set i b).take headerLength = frame.take headerLength := by
  rw [List.take_set, List.set_eq_of_length_le (Nat.le_trans (List.length_take_le ..) h)]

private theorem vectorOf_set_of_outside (h : i < headerLength ∨ bodyStart ≤ i) :
    vectorOf (frame.set i b) = vectorOf frame :=
  h.elim (Octets.slice_set_of_lt · b) (Octets.slice_set_of_le · b)

private theorem bodyOf_set_of_outside (h : i < bodyStart ∨ frame.length - tagLength ≤ i) :
    bodyOf (frame.set i b) = bodyOf frame := by
  rw [bodyOf, List.length_set]
  exact h.elim (Octets.slice_set_of_lt · b) (Octets.slice_set_of_le · b)

private theorem bodyOf_set_of_ge (h : bodyStart ≤ i) :
    bodyOf (frame.set i b) = (bodyOf frame).set (i - bodyStart) b := by
  rw [bodyOf, List.length_set, Octets.slice_set_of_ge h, bodyOf]

private theorem tagOf_set_of_lt (h : i < frame.length - tagLength) : tagOf (frame.set i b) = tagOf frame := by
  rw [tagOf, List.length_set, List.drop_set, if_pos h, tagOf]

end Parts

/-- The octet that is replaced stands in one of four parts, and in each the tag tells its value. -/
theorem set_eq_of_isAuthentic (hkey : key.hashKey ≠ 0) (hlong : overhead ≤ frame.length) (h : IsAuthentic key frame)
    (hset : IsAuthentic key (frame.set i b)) : frame.set i b = frame := by
  have hsetLong : overhead ≤ (frame.set i b).length := by rwa [List.length_set]
  have hends : bodyStart ≤ frame.length - tagLength := by
    simp only [overhead, bodyStart, headerLength, vectorLength, tagLength] at hlong ⊢
    omega
  have hcipher := Aes.length_encrypt key.octets
  rw [IsAuthentic] at h hset
  rcases Nat.lt_or_ge i headerLength with hi | hi
  · -- In the header, which the hash takes in first.
    have hbefore : i < bodyStart := Nat.lt_of_lt_of_le hi (by decide)
    have hvector := vectorOf_set_of_outside frame b (.inl hi)
    have hbody := bodyOf_set_of_outside frame b (.inl hbefore)
    have htag := tagOf_set_of_lt frame b (Nat.lt_of_lt_of_le hbefore hends)
    rw [hvector, hbody, htag, ← h, List.take_set] at hset
    have hheader := Gcm.eq_of_hash_set_header hkey (Gcm.hash_eq_of_tag_eq hcipher hset)
    rw [← List.take_set] at hheader
    exact eq_of_parts_eq hsetLong hlong hheader hvector hbody htag
  have hheader := header_set_of_le frame b hi
  rcases Nat.lt_or_ge i bodyStart with hin | hin
  · -- In the vector, which goes through the cipher.
    have hbody := bodyOf_set_of_outside frame b (.inl hin)
    have htag := tagOf_set_of_lt frame b (Nat.lt_of_lt_of_le hin hends)
    rw [hheader, hbody, htag, ← h] at hset
    have hvector := Gcm.vector_eq_of_tag_eq (length_vectorOf hsetLong) (length_vectorOf hlong) hset
    exact eq_of_parts_eq hsetLong hlong hheader hvector hbody htag
  have hvector := vectorOf_set_of_outside frame b (.inr hin)
  rcases Nat.lt_or_ge i (frame.length - tagLength) with hend | hend
  · -- In the ciphertext, which the hash takes in after the header.
    have hbody := bodyOf_set_of_ge frame b hin
    have htag := tagOf_set_of_lt frame b hend
    rw [hheader, hvector, hbody, htag, ← h] at hset
    have hsame := Gcm.eq_of_hash_set_body hkey (Gcm.hash_eq_of_tag_eq hcipher hset)
    exact eq_of_parts_eq hsetLong hlong hheader hvector (hbody.trans hsame) htag
  · -- In the tag, and all that determines it is as it was.
    have hbody := bodyOf_set_of_outside frame b (.inr hend)
    rw [hheader, hvector, hbody, h] at hset
    exact eq_of_parts_eq hsetLong hlong hheader hvector hbody hset.symm

theorem opened?_set_eq_none (hkey : key.hashKey ≠ 0) (h : opened? key frame watermark = some text)
    (hne : frame.set i b ≠ frame) (other : UInt64) : opened? key (frame.set i b) other = none := by
  cases hset : opened? key (frame.set i b) other with
  | none => rfl
  | some otherText =>
    have hsame := set_eq_of_isAuthentic hkey (overhead_le_of_opened? h) (isAuthentic_of_opened? h)
      (isAuthentic_of_opened? hset)
    exact absurd hsame hne

/-- A receiver refuses a frame in which any one octet is altered, in either way of opening it, and is left as it was. -/
def RefusesAltered (receiver : SecurityContext) (frame : Octets) : Prop :=
  ∀ (i : Nat) (hi : i < frame.length) (mask : UInt8) (watermark : UInt64), mask ≠ 0 →
    openText receiver (frame.set i (frame[i] ^^^ mask)) watermark = (.error .invalidResponse, watermark) ∧
    openInPlace receiver (frame.set i (frame[i] ^^^ mask)) watermark =
      (.error .invalidResponse, frame.set i (frame[i] ^^^ mask), watermark)

private theorem refusesAltered_of_opened? {receiver : SecurityContext} (hreceiver : receiver.frameKey = some key)
    (hkey : key.hashKey ≠ 0) (h : opened? key frame watermark = some text) : RefusesAltered receiver frame := by
  intro i hi mask other hmask
  have hne : frame.set i (frame[i] ^^^ mask) ≠ frame := by
    intro hsame
    have hoctet : frame[i] ^^^ mask = frame[i] ^^^ 0 := by
      rw [UInt8.xor_zero, ← List.getElem_set_self (l := frame) (i := i) (a := frame[i] ^^^ mask) (by simpa using hi)]
      exact List.getElem_of_eq hsame _
    exact hmask ((UInt8.xor_right_inj _).mp hoctet)
  have hnone := opened?_set_eq_none hkey h hne other
  constructor
  · rw [openText_of_key hreceiver, hnone]
  · rw [openInPlace_of_key hreceiver, hnone]

private theorem opened?_of_sealInto {sender : SecurityContext} (hsender : sender.frameKey = some key) {buffer : Octets}
    {source : RandomSource} {written : Nat} (h : (sealInto sender text buffer source).1 = .ok written) :
    opened? key ((sealInto sender text buffer source).2.1.take written) sender.sent = some text := by
  have hbuffer : text.length + overhead ≤ buffer.length := by
    by_contra hshort
    rw [Nat.not_le, ← sealedLength_of_key hsender] at hshort
    rw [sealInto_of_short hshort] at h
    cases h
  have hsent : sender.sent ≠ UInt64.ofNat (2 ^ 64 - 1) := by
    intro hspent
    rw [sealInto_of_spent hsender hbuffer hspent] at h
    cases h
  have htext : text.length ≤ Gcm.maxLength := by
    by_contra hlong
    obtain ⟨after, hrefused⟩ := exists_sealInto_of_long hsender hbuffer hsent (Nat.not_le.mp hlong) source
    rw [hrefused] at h
    cases h
  have hvector := RandomSource.length_draw vectorLength source
  rw [sealInto_of_key hsender hbuffer hsent htext] at h ⊢
  have hwritten := Except.ok.inj h
  rw [List.take_left' (by rw [length_sealedWith key _ hvector, ← hwritten])]
  exact opened?_sealedWith hvector htext (SecurityContext.sent_lt_of_unspent hsent)

private theorem opened?_of_sealText {sender : SecurityContext} (hsender : sender.frameKey = some key)
    {source : RandomSource}
    (h : (sealText sender text source).1 = .ok frame) : opened? key frame sender.sent = some text := by
  simp only [sealText] at h
  generalize hbuffer : List.replicate (sealedLength sender text.length) (0 : UInt8) = buffer at h
  cases hwritten : (sealInto sender text buffer source).1 with
  | error e => simp [hwritten, Except.map] at h
  | ok written =>
    simp only [hwritten, Except.map, Except.ok.injEq] at h
    rw [← h]
    exact opened?_of_sealInto hsender hwritten

/-- Every change of one octet of a sealed frame is found. Whatever was sealed under a key, into a frame of its own or
into a buffer, a receiver with that key and any watermark refuses the frame with one octet altered and keeps its
watermark, provided only that the key of the polynomial hash is not zero. -/
theorem refusesAltered_of_sealed {sender receiver : SecurityContext} (hsender : sender.frameKey = some key)
    (hreceiver : receiver.frameKey = some key) (hkey : key.hashKey ≠ 0) (text : Octets) (source : RandomSource) :
    (∀ frame, (sealText sender text source).1 = .ok frame → RefusesAltered receiver frame) ∧
    (∀ buffer written, (sealInto sender text buffer source).1 = .ok written →
      RefusesAltered receiver ((sealInto sender text buffer source).2.1.take written)) := by
  constructor
  · intro frame h
    exact refusesAltered_of_opened? hreceiver hkey (opened?_of_sealText hsender h)
  · intro buffer written h
    exact refusesAltered_of_opened? hreceiver hkey (opened?_of_sealInto hsender h)

theorem refusesAltered_of_sealed_greeting :
    let key : Key := ⟨List.replicate 32 0x42, rfl⟩
    let c : SecurityContext := ⟨none, some key, 6, none⟩
    let text : Octets := [0x68, 0x69]
    let source := RandomSource.cycle [7, 9]
    let buffer : Octets := List.replicate 48 0
    key.hashKey ≠ 0 ∧
      (∃ frame : Octets, ∃ hlength : frame.length = 40,
        (sealText c text source).1 = .ok frame ∧ openText c frame 5 = (.ok text, 7) ∧
        openText c (frame.set 23 (frame[23] ^^^ 0x80)) 5 = (.error .invalidResponse, 5)) ∧
      (sealInto c text buffer source).1 = .ok 40 ∧
      RefusesAltered c ((sealInto c text buffer source).2.1.take 40) := by
  intro key c text source buffer
  have hkey : key.hashKey ≠ 0 := by decide +kernel
  have hc : c.frameKey = some key := rfl
  have hrefused := refusesAltered_of_sealed hc hc hkey text source
  have hvector := RandomSource.length_draw vectorLength source
  have hlength := length_sealedWith key 7 hvector text
  have hframe : (sealText c text source).1 = .ok (sealedWith key 7 (source.draw vectorLength).1 text) := by
    rw [sealText_of_key hc (by decide) (by decide)]
    rfl
  have hopened : opened? key (sealedWith key 7 (source.draw vectorLength).1 text) 5 = some text :=
    opened?_sealedWith hvector (by decide) (by decide)
  have hwritten : (sealInto c text buffer source).1 = .ok 40 := by
    rw [sealInto_of_key hc (by decide) (by decide) (by decide)]
    rfl
  refine ⟨hkey, ⟨_, hlength, hframe, ?_, ?_⟩, hwritten, hrefused.2 buffer 40 hwritten⟩
  · rw [openText_of_key hc, hopened, counterOf_sealedWith]
  · exact (hrefused.1 _ hframe 23 (by rw [hlength]; decide) 0x80 5 (by decide)).1

end Frame

end FieldLink
