import FieldLink.Proofs.HandshakeAdmission

/-!
# What a one-time code is made of, and how it is written

The four octets that it is cut from lie inside the digest, wherever the last octet points; the word they make up
has no top bit; and a code has no more digits than are asked for, so that zeros fill it up and are read over
again.
-/

namespace FieldLink

namespace CodeSettings

private theorem toNat_and_low (octet : UInt8) : (octet &&& 0x0f).toNat = octet.toNat % 16 := by
  rw [UInt8.toNat_and]
  exact Nat.and_two_pow_sub_one_eq_mod octet.toNat 4

/-- Where the word of a digest begins: at one of the first sixteen of its twenty octets. -/
def digestPlace (digest : Vector UInt8 20) : Fin 16 :=
  ⟨(digest[19] &&& 0x0f).toNat, by rw [toNat_and_low]; omega⟩

def assemble (a b c d : UInt8) : UInt32 :=
  ((a.toUInt32 &&& 0x7f) <<< 24) ||| (b.toUInt32 <<< 16) ||| (c.toUInt32 <<< 8) ||| d.toUInt32

def digestWord (digest : Vector UInt8 20) : UInt32 :=
  let i := digestPlace digest
  assemble digest[i.val] digest[i.val + 1] digest[i.val + 2] digest[i.val + 3]

private theorem toNat_assemble (a b c d : UInt8) : (assemble a b c d).toNat = Octets.toNat [a, b, c, d] % 2 ^ 31 := by
  have ha := a.toNat_lt
  have hb := b.toNat_lt
  have hc := c.toNat_lt
  have hd := d.toNat_lt
  have hlow : (a.toUInt32 &&& 0x7f).toNat = a.toNat % 128 := by
    rw [UInt32.toNat_and, UInt8.toNat_toUInt32]
    exact Nat.and_two_pow_sub_one_eq_mod a.toNat 7
  have hshift (x : UInt32) (bits : Nat) (hbits : bits < 32) (hx : x.toNat * 2 ^ bits < 2 ^ 32) :
      (x <<< UInt32.ofNat bits).toNat = 2 ^ bits * x.toNat := by
    rw [UInt32.toNat_shiftLeft, UInt32.toNat_ofNat_of_lt' (Nat.lt_trans hbits (by decide)),
      Nat.mod_eq_of_lt hbits, Nat.shiftLeft_eq, Nat.mod_eq_of_lt hx, Nat.mul_comm]
  have hfirst := hshift (a.toUInt32 &&& 0x7f) 24 (by decide) (by omega)
  have hsecond := hshift b.toUInt32 16 (by decide) (by rw [UInt8.toNat_toUInt32]; omega)
  have hthird := hshift c.toUInt32 8 (by decide) (by rw [UInt8.toNat_toUInt32]; omega)
  rw [hlow] at hfirst
  rw [UInt8.toNat_toUInt32] at hsecond hthird
  -- What is shifted further has zeros where the rest stands, so that putting bits together is adding.
  have hpair : 2 ^ 24 * (a.toNat % 128) ||| 2 ^ 16 * b.toNat = 2 ^ 16 * (a.toNat % 128 * 256 + b.toNat) := by
    rw [← Nat.two_pow_add_eq_or_of_lt (by omega)]
    omega
  have htriple (n : Nat) : 2 ^ 16 * n ||| 2 ^ 8 * c.toNat = 2 ^ 8 * (n * 256 + c.toNat) := by
    rw [← Nat.two_pow_add_eq_or_of_lt (by omega)]
    omega
  have hwhole (n : Nat) : 2 ^ 8 * n ||| d.toNat = n * 256 + d.toNat := by
    rw [← Nat.two_pow_add_eq_or_of_lt hd, Nat.mul_comm]
  calc (assemble a b c d).toNat
      = 2 ^ 24 * (a.toNat % 128) ||| 2 ^ 16 * b.toNat ||| 2 ^ 8 * c.toNat ||| d.toNat := by
        rw [← hfirst, ← hsecond, ← hthird, ← UInt8.toNat_toUInt32 d, ← UInt32.toNat_or, ← UInt32.toNat_or,
          ← UInt32.toNat_or]
        rfl
    _ = ((a.toNat % 128 * 256 + b.toNat) * 256 + c.toNat) * 256 + d.toNat := by
        rw [hpair, htriple, hwhole]
    _ = Octets.toNat [a, b, c, d] % 2 ^ 31 := by
        simp only [Octets.toNat, List.foldl_cons, List.foldl_nil]
        omega

/-- Cutting a digest of twenty octets never looks behind its end. -/
theorem truncateDigest_toList (digest : Vector UInt8 20) : truncateDigest digest.toList = (digestWord digest).toNat := by
  have hlast : digest.toList.getD 19 0 = digest[19] := by simp
  have hplace : (digest.toList.getD 19 0).toNat % 16 = (digestPlace digest).val := by
    rw [hlast, ← toNat_and_low]
    rfl
  have hoctets (i : Nat) (hi : i < 16) : (digest.toList.drop i).take 4 =
      [digest[i], digest[i + 1], digest[i + 2], digest[i + 3]] := by
    have hdrop (j : Nat) (hj : j < 20) : digest.toList.drop j = digest[j] :: digest.toList.drop (j + 1) := by
      rw [List.drop_eq_getElem_cons (by simpa using hj), Vector.getElem_toList]
    rw [hdrop i (by omega), hdrop (i + 1) (by omega), hdrop (i + 2) (by omega), hdrop (i + 3) (by omega)]
    rfl
  rw [truncateDigest, hplace, hoctets _ (digestPlace digest).isLt, ← toNat_assemble]
  rfl

private theorem digestWord_lt (digest : Vector UInt8 20) : (digestWord digest).toNat < 2 ^ 31 := by
  rw [← truncateDigest_toList]
  exact Nat.mod_lt _ (by decide)

/-- A code that is cut from the digest of the number of a period. -/
structure CutFrom (s : CodeSettings) (number : Nat) (digest : Vector UInt8 20) (code : UInt32) : Prop where
  octets : digest.toList = Hmac.sha1 s.seed (Octets.bigEndian 8 number)
  word : (digestWord digest).toNat < 2 ^ 31
  value : code.toNat = (digestWord digest).toNat % 10 ^ s.digits.toNat

private theorem exists_cutFrom (s : CodeSettings) (number : Nat) :
    ∃ digest, s.CutFrom number digest (s.codeOfPeriod number) := by
  have hlength : (Hmac.sha1 s.seed (Octets.bigEndian 8 number)).length = 20 := Hmac.length_sha1 ..
  obtain ⟨digest, hdigest⟩ : ∃ digest : Vector UInt8 20, digest.toList = Hmac.sha1 s.seed (Octets.bigEndian 8 number) :=
    ⟨⟨_, hlength⟩, rfl⟩
  have hword := (digestWord digest).toNat_lt
  have hcode := Nat.mod_le (digestWord digest).toNat (10 ^ s.digits.toNat)
  refine ⟨digest, hdigest, digestWord_lt digest, ?_⟩
  rw [codeOfPeriod, ← hdigest, truncateDigest_toList, UInt32.toNat_ofNat_of_lt' (Nat.lt_of_le_of_lt hcode hword)]

theorem CutFrom.lt {s : CodeSettings} {number : Nat} {digest : Vector UInt8 20} {code : UInt32}
    (h : s.CutFrom number digest code) : code.toNat < 10 ^ s.digits.toNat := by
  rw [h.value]
  exact Nat.mod_lt _ (Nat.pow_pos (by decide))

private theorem length_format {code digits : UInt32} (hpos : 0 < digits) (hlt : code.toNat < 10 ^ digits.toNat) :
    (format code digits).length = digits.toNat := by
  have hlength : (Nat.toDigits 10 code.toNat).length ≤ digits.toNat :=
    (Nat.length_toDigits_le_iff (by decide) (by simpa [UInt32.lt_iff_toNat_lt] using hpos)).mpr hlt
  simp only [format, String.length_ofList, List.length_append, List.length_replicate]
  omega

private theorem isDigit_of_mem_format {code digits : UInt32} : ∀ c ∈ (format code digits).toList, c.isDigit = true := by
  intro c hc
  rw [format, String.toList_ofList] at hc
  rcases List.mem_append.mp hc with hzero | hdigit
  · rw [List.eq_of_mem_replicate hzero]
    decide
  · exact Nat.isDigit_of_mem_toDigits (by decide) (by decide) hdigit

end CodeSettings

private theorem Admission.checkCode_of_read? {c : SecurityContext} {h : Handshake.Headers} {text : String}
    {code : UInt32} (hcodes : c.codes.isSome = true) (htext : h.code = some text)
    (hread : NumberText.read? (2 ^ 32) (trim text.toList) = some code.toNat) (time : UInt64) :
    checkCode c h time = .ok () ↔ c.verifyCode time code = .ok true := by
  have hon : c.codes.isNone = false := by
    rw [← Option.not_isSome, hcodes]
    rfl
  rw [checkCode, hon, htext]
  simp only [Bool.false_eq_true, if_false, Option.bind_some, hread, UInt32.ofNat_toNat, bind_eq_ok_iff]
  constructor
  · rintro ⟨accepted, hverify, haccepted⟩
    cases accepted with
    | true => exact hverify
    | false => cases haccepted
  · intro hverify
    exact ⟨true, hverify, rfl⟩

namespace CodeSettings

/-- Checked settings have a code at every time. It is cut from four of the twenty octets of a digest, and from no others,
and of the time only the number of its period has a part in it. It is written with as many digits as are asked for and
read back by a node, which then judges by it. -/
theorem compute_reads_back (s : CodeSettings) (hseed : s.seed ≠ []) (hperiod : 1 ≤ s.period) (hlower : 6 ≤ s.digits)
    (hupper : s.digits ≤ 8) (time : UInt64) :
    ∃ (digest : Vector UInt8 20) (code : UInt32), s.compute time = .ok code ∧
      s.CutFrom (time.toNat / s.period.toNat) digest code ∧ code.toNat < 10 ^ s.digits.toNat ∧
      (∀ other : UInt64, other.toNat / s.period.toNat = time.toNat / s.period.toNat → s.compute other = .ok code) ∧
      (format code s.digits).length = s.digits.toNat ∧ (∀ c ∈ (format code s.digits).toList, c.isDigit = true) ∧
      NumberText.read? (2 ^ 32) (trim (format code s.digits).toList) = some code.toNat ∧
      ∀ (c : SecurityContext) (h : Handshake.Headers) (seen : UInt64), c.codes.isSome = true →
        h.code = some (format code s.digits) →
        (Admission.checkCode c h seen = .ok () ↔ c.verifyCode seen code = .ok true) := by
  have hnonzero : s.period ≠ 0 := by
    intro hzero
    rw [hzero] at hperiod
    exact absurd hperiod (by decide)
  have hcheck := check_eq_ok_iff.mpr ⟨hseed, hnonzero, hlower, hupper⟩
  have hpos : 0 < s.digits := UInt32.lt_of_lt_of_le (by decide) hlower
  obtain ⟨digest, hcut⟩ := s.exists_cutFrom (time.toNat / s.period.toNat)
  have hread := NumberText.read?_format (s.codeOfPeriod (time.toNat / s.period.toNat)) s.digits
  refine ⟨digest, _, compute_eq_ok_iff.mpr ⟨hcheck, rfl⟩, hcut, hcut.lt, ?_, length_format hpos hcut.lt,
    isDigit_of_mem_format, hread, ?_⟩
  · intro other hsame
    exact compute_eq_ok_iff.mpr ⟨hcheck, congrArg s.codeOfPeriod hsame⟩
  · intro c h seen hcodes htext
    exact Admission.checkCode_of_read? hcodes htext hread seen

/-- A code that begins with a zero. -/
theorem compute_reads_back_zero_in_front :
    let s : CodeSettings := ⟨Utf8.encode "12345678901234567890".toList, 30, 8, 1⟩
    s.compute 1111111109 = .ok 7081804 ∧ format 7081804 8 = "07081804" ∧
      (∃ digest, s.CutFrom 37037036 digest 7081804) ∧ s.compute 1111111080 = .ok 7081804 ∧
      NumberText.read? (2 ^ 32) (trim "07081804".toList) = some 7081804 := by
  intro s
  have hcode : s.compute 1111111109 = .ok 7081804 := by decide +kernel
  have hformat : format 7081804 8 = "07081804" := by decide +kernel
  obtain ⟨digest, code, hcompute, hcut, -, hsame, -, -, hread, -⟩ :=
    compute_reads_back s (by decide) (by decide) (by decide) (by decide) 1111111109
  obtain rfl : code = 7081804 := Except.ok.inj (hcompute.symm.trans hcode)
  have hread : NumberText.read? (2 ^ 32) (trim (format 7081804 8).toList) = some 7081804 := hread
  rw [hformat] at hread
  rw [show (1111111109 : UInt64).toNat / s.period.toNat = 37037036 by decide] at hcut
  exact ⟨hcode, hformat, ⟨digest, hcut⟩, hsame 1111111080 (by decide), hread⟩

end CodeSettings
end FieldLink
