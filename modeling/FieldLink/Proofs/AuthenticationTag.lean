import FieldLink.Proofs.BlockCipher
import FieldLink.Proofs.BlockField
import FieldLink.Proofs.FrameLayout
import FieldLink.Proofs.OctetNumbers

/-!
# Tags and altered octets

The tag of a header, a ciphertext and an initialisation vector is another one when one octet of them is another
one. In header and ciphertext that octet lies in one block of the polynomial hash, whose later steps can be
followed back when the key of the hash is not zero; the vector is under the block cipher.
-/

namespace FieldLink

private theorem Octets.blocks_of_ne_nil {octets : Octets} (h : octets ≠ []) :
    blocks 16 octets = octets.take 16 :: blocks 16 (octets.drop 16) := by
  rw [blocks, if_neg (by simp [h])]

namespace Gcm

private theorem toNat_element {block : Octets} (hshort : block.length ≤ 16) :
    (element block).toNat = Octets.toNat (block ++ List.replicate (16 - block.length) 0) := by
  have hlt := Octets.toNat_lt (block ++ List.replicate (16 - block.length) 0)
  rw [List.length_append, List.length_replicate, Nat.add_sub_cancel' hshort] at hlt
  rw [element, BitVec.toNat_ofNat, Nat.mod_eq_of_lt hlt]

private theorem element_inj {block other : Octets} (hlength : block.length = other.length) (hshort : block.length ≤ 16)
    (h : element block = element other) : block = other := by
  have hnat := congrArg BitVec.toNat h
  rw [toNat_element hshort, toNat_element (hlength ▸ hshort), ← hlength] at hnat
  have hpadded := Octets.eq_of_toNat_eq (by simp [hlength]) hnat
  exact List.append_cancel_right hpadded

private theorem blockOf_injective : Function.Injective blockOf := by
  intro x y h
  have hnat := congrArg Octets.toNat h
  rw [blockOf, blockOf, Octets.toNat_bigEndian _ _ x.isLt, Octets.toNat_bigEndian _ _ y.isLt] at hnat
  exact BitVec.eq_of_toNat_eq hnat

theorem xor_comm (a b : Octets) : Octets.xor a b = Octets.xor b a :=
  List.zipWith_comm_of_comm UInt8.xor_comm

private theorem xor_left_cancel {stream a b : Octets} (ha : a.length ≤ stream.length) (hb : b.length ≤ stream.length)
    (h : Octets.xor stream a = Octets.xor stream b) : a = b := by
  rw [xor_comm stream a, xor_comm stream b] at h
  rw [← xor_xor_cancel a stream ha, h, xor_xor_cancel b stream hb]

section Hash

variable {key : BitVec 128}

theorem hashBlocks_append (key start : BitVec 128) (front back : List Octets) :
    hashBlocks key start (front ++ back) = hashBlocks key (hashBlocks key start front) back :=
  List.foldl_append ..

theorem hashBlocks_cons (key start : BitVec 128) (block : Octets) (blocks : List Octets) :
    hashBlocks key start (block :: blocks) = hashBlocks key (multiply (start ^^^ element block) key) blocks := rfl

private theorem hashBlocks_left_cancel (hkey : key ≠ 0) (blocks : List Octets) {start other : BitVec 128}
    (h : hashBlocks key start blocks = hashBlocks key other blocks) : start = other := by
  induction blocks generalizing start other with
  | nil => exact h
  | cons block blocks ih =>
    rw [hashBlocks_cons, hashBlocks_cons] at h
    exact (BitVec.xor_left_inj _).mp (multiply_right_cancel hkey (ih h))

/-- An octet that is replaced lies in one block, and the other blocks are as they were. -/
theorem eq_of_hashBlocks_set (hkey : key ≠ 0) {octets : Octets} {i : Nat} {b : UInt8} {start : BitVec 128}
    (h : hashBlocks key start (Octets.blocks 16 (octets.set i b)) = hashBlocks key start (Octets.blocks 16 octets)) :
    octets.set i b = octets := by
  induction hlength : octets.length using Nat.strong_induction_on generalizing octets i start with
  | _ length ih =>
    subst hlength
    by_cases hempty : octets = []
    · rw [hempty, List.set_nil]
    have hpos : 0 < octets.length := List.length_pos_iff.mpr hempty
    have hset : octets.set i b ≠ [] := by
      rwa [← List.length_pos_iff, List.length_set]
    rw [Octets.blocks_of_ne_nil hset, Octets.blocks_of_ne_nil hempty, hashBlocks_cons, hashBlocks_cons, List.take_set,
      List.drop_set] at h
    rw [← List.take_append_drop 16 (octets.set i b), List.take_set, List.drop_set]
    conv_rhs => rw [← List.take_append_drop 16 octets]
    by_cases hi : i < 16
    · rw [if_pos hi] at h ⊢
      have hfirst := (BitVec.xor_right_inj _).mp (multiply_right_cancel hkey (hashBlocks_left_cancel hkey _ h))
      rw [element_inj (List.length_set ..) (by simp) hfirst]
    · have hout : (octets.take 16).set i b = octets.take 16 := by
        apply List.set_eq_of_length_le
        rw [List.length_take]
        omega
      rw [if_neg hi, hout] at h ⊢
      have hshorter : (octets.drop 16).length < octets.length := by
        rw [List.length_drop]
        omega
      rw [ih _ hshorter h rfl]

theorem eq_of_hash_set_header (hkey : key ≠ 0) {header body : Octets} {i : Nat} {b : UInt8}
    (h : hash key (header.set i b) body = hash key header body) : header.set i b = header := by
  rw [hash, hash, lengthBlock, lengthBlock, List.length_set, List.append_assoc, List.append_assoc, hashBlocks_append,
    hashBlocks_append key 0 (Octets.blocks 16 header)] at h
  exact eq_of_hashBlocks_set hkey (hashBlocks_left_cancel hkey _ h)

theorem eq_of_hash_set_body (hkey : key ≠ 0) {header body : Octets} {i : Nat} {b : UInt8}
    (h : hash key header (body.set i b) = hash key header body) : body.set i b = body := by
  rw [hash, hash, lengthBlock, lengthBlock, List.length_set, hashBlocks_append, hashBlocks_append key 0 (_ ++ _),
    hashBlocks_append, hashBlocks_append key 0 (Octets.blocks 16 header)] at h
  exact eq_of_hashBlocks_set hkey (hashBlocks_left_cancel hkey _ h)

end Hash

section Tag

variable {cipher : Octets → Octets} (hcipher : ∀ block, (cipher block).length = 16)

include hcipher

theorem hash_eq_of_tag_eq {iv header body otherHeader otherBody : Octets}
    (h : tag cipher iv header body = tag cipher iv otherHeader otherBody) :
    hash (element (cipher (List.replicate 16 0))) header body =
      hash (element (cipher (List.replicate 16 0))) otherHeader otherBody := by
  apply blockOf_injective
  apply xor_left_cancel _ _ h
  · rw [hcipher, blockOf, Octets.length_bigEndian]
  · rw [hcipher, blockOf, Octets.length_bigEndian]

/-- The cipher enters the tag with the block of the vector alone. -/
theorem cipher_eq_of_tag_eq {iv other header body : Octets}
    (h : tag cipher iv header body = tag cipher other header body) :
    cipher (counterBlock iv 1) = cipher (counterBlock other 1) := by
  rw [tag, tag, xor_comm, xor_comm (cipher (counterBlock other 1))] at h
  apply xor_left_cancel _ _ h
  · rw [hcipher, blockOf, Octets.length_bigEndian]
  · rw [hcipher, blockOf, Octets.length_bigEndian]

end Tag

/-- Two vectors with one tag are one, as the cipher is a permutation of the blocks. -/
theorem vector_eq_of_tag_eq {key iv other header body : Octets} (hiv : iv.length = 12) (hother : other.length = 12)
    (h : tag (Aes.encrypt key) iv header body = tag (Aes.encrypt key) other header body) : iv = other := by
  have hblock := cipher_eq_of_tag_eq (Aes.length_encrypt key) h
  rw [Aes.encrypt_inj (by simp [counterBlock, hiv]) (by simp [counterBlock, hother])] at hblock
  exact List.append_cancel_right hblock

end Gcm
end FieldLink
