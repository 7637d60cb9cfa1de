import FieldLink.Octets

/-!
# Hexadecimal text

Two digits an octet, high half first; writing chooses a letter case and reading takes either.
-/

namespace FieldLink.Hexadecimal

def lowerDigit (n : Nat) : Char :=
  if n < 10 then Char.ofNat (48 + n) else Char.ofNat (87 + n)

def upperDigit (n : Nat) : Char :=
  if n < 10 then Char.ofNat (48 + n) else Char.ofNat (55 + n)

def digitValue? (c : Char) : Option Nat :=
  let n := c.toNat
  if 48 ≤ n ∧ n ≤ 57 then some (n - 48)
  else if 97 ≤ n ∧ n ≤ 102 then some (n - 87)
  else if 65 ≤ n ∧ n ≤ 70 then some (n - 55)
  else none

/-- Two digits an octet in the letter case of `digit`. -/
def write (digit : Nat → Char) : Octets → List Char
  | [] => []
  | octet :: rest => digit (octet.toNat / 16) :: digit (octet.toNat % 16) :: write digit rest

/-- Reads pairs of digits; an odd digit or another character is refused. -/
def read? : List Char → Option Octets
  | [] => some []
  | [_] => none
  | high :: low :: rest => do
    let h ← digitValue? high
    let l ← digitValue? low
    return UInt8.ofNat (16 * h + l) :: (← read? rest)

def encode (octets : Octets) : String := String.ofList (write lowerDigit octets)

def encodeUpper (octets : Octets) : String := String.ofList (write upperDigit octets)

def decode? (text : String) : Option Octets := read? text.toList

@[simp] theorem length_write (digit : Nat → Char) (octets : Octets) :
    (write digit octets).length = 2 * octets.length := by
  induction octets with
  | nil => rfl
  | cons octet rest ih => simp [write, ih]; omega

theorem lowerDigit_value : ∀ n < 16, digitValue? (lowerDigit n) = some n := by decide

private theorem upperDigit_value : ∀ n < 16, digitValue? (upperDigit n) = some n := by decide

private theorem read?_write (digit : Nat → Char)
    (hdigit : ∀ n < 16, digitValue? (digit n) = some n) (octets : Octets) :
    read? (write digit octets) = some octets := by
  induction octets with
  | nil => rfl
  | cons octet rest ih =>
    have hlt : octet.toNat < 256 := octet.toNat_lt
    have hjoin : UInt8.ofNat (16 * (octet.toNat / 16) + octet.toNat % 16) = octet := by
      rw [show 16 * (octet.toNat / 16) + octet.toNat % 16 = octet.toNat by omega]
      exact UInt8.ofNat_toNat
    rw [write, read?, hdigit _ (show octet.toNat / 16 < 16 by omega),
      hdigit _ (Nat.mod_lt octet.toNat (by omega))]
    simp [ih, -UInt8.ofNat_add, hjoin]

@[simp] theorem decode?_encode (octets : Octets) : decode? (encode octets) = some octets := by
  simp [decode?, encode, read?_write lowerDigit lowerDigit_value]

@[simp] theorem decode?_encodeUpper (octets : Octets) :
    decode? (encodeUpper octets) = some octets := by
  simp [decode?, encodeUpper, read?_write upperDigit upperDigit_value]

private theorem utf8Size_lowerDigit : ∀ n < 16, (lowerDigit n).utf8Size = 1 := by decide

theorem utf8ByteSize_encode (octets : Octets) : (encode octets).utf8ByteSize = 2 * octets.length := by
  have hcons (c : Char) (rest : List Char) :
      (String.ofList (c :: rest)).utf8ByteSize = c.utf8Size + (String.ofList rest).utf8ByteSize := by
    rw [← List.singleton_append, String.ofList_append, String.utf8ByteSize_append]
    simp
  rw [encode]
  induction octets with
  | nil => rfl
  | cons octet rest ih =>
    have hlt : octet.toNat < 256 := octet.toNat_lt
    rw [write, hcons, hcons, ih, utf8Size_lowerDigit _ (show octet.toNat / 16 < 16 by omega),
      utf8Size_lowerDigit _ (Nat.mod_lt octet.toNat (by omega)), List.length_cons]
    omega

end FieldLink.Hexadecimal
