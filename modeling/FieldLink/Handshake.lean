import FieldLink.Hexadecimal
import FieldLink.RandomSource
import FieldLink.SecurityContext
import FieldLink.Utf8

/-!
# The request that opens a connection

A bearer token, a nonce and its signature where handshakes are signed, and a one-time code where codes are on.
The signature is over the nonce and the whole value of the authorization header.
-/

namespace FieldLink.Handshake

def nonceLength : Nat := 16
def signatureLength : Nat := 32

def bearerFront : String := "Bearer "

def bearer (token : String) : String := bearerFront ++ token

def valueOctets (s : String) : Octets := Utf8.encode s.toList

def sign (c : SecurityContext) (nonce value : Octets) : Except SecurityError Octets :=
  match c.handshakeKey with
  | none => .error (.disabled .handshake)
  | some key =>
    if nonce = [] then .error (.invalidArgument .emptyNonce)
    else if value = [] then .error (.invalidArgument .emptyToken)
    else .ok (Hmac.sha256 key.octets (nonce ++ value))

/-- Whether a signature is the one over a nonce and a header value. -/
def verify (c : SecurityContext) (nonce value signature : Octets) : Bool :=
  if signature.length ≠ signatureLength then false
  else
    match sign c nonce value with
    | .ok expected => expected == signature
    | .error _ => false

structure Headers where
  authorization : String
  nonce : Option String
  signature : Option String
  code : Option String
deriving DecidableEq

namespace Headers

def authorizationName : String := "Authorization"
def nonceName : String := "X-WS-Nonce"
def signatureName : String := "X-WS-Signature"
def codeName : String := "X-WS-TOTP"

/-- A fresh nonce and its signature, where handshakes are signed. -/
def signFresh (c : SecurityContext) (authorization : String) (source : RandomSource) :
    Except SecurityError (Option (Octets × Octets)) :=
  if c.handshakeKey.isSome then do
    let nonce := (source.draw nonceLength).1
    let signature ← sign c nonce (valueOctets authorization)
    return some (nonce, signature)
  else .ok none

/-- The one-time code header, where codes are on. -/
def codeHeader (c : SecurityContext) (time : UInt64) : Except SecurityError (Option String) :=
  match c.codes with
  | none => .ok none
  | some codes => do
    let code ← c.code time
    return some (CodeSettings.format code codes.digits)

def build (c : SecurityContext) (token : String) (source : RandomSource) (time : UInt64) :
    Except SecurityError Headers := do
  let authorization := bearer token
  let signed ← signFresh c authorization source
  let code ← codeHeader c time
  return {
    authorization, code
    nonce := signed.map fun pair => Hexadecimal.encode pair.1
    signature := signed.map fun pair => Hexadecimal.encode pair.2 }

def toPairs (h : Headers) : List (String × String) :=
  [(authorizationName, h.authorization)] ++ (h.nonce.map (nonceName, ·)).toList ++
    (h.signature.map (signatureName, ·)).toList ++ (h.code.map (codeName, ·)).toList

/-- Whether two header names differ at most in the case of ASCII letters. -/
def sameName (a b : String) : Bool := a.toList.map Char.toLower == b.toList.map Char.toLower

def find? (name : String) (pairs : List (String × String)) : Option String :=
  (pairs.find? fun pair => sameName pair.1 name).map (·.2)

/-- Reads the headers out of names and values; only the authorization must be there. -/
def ofPairs (pairs : List (String × String)) : Except SecurityError Headers :=
  match find? authorizationName pairs with
  | none => .error (.invalidArgument .missingAuthorization)
  | some authorization =>
    .ok {
      authorization
      nonce := find? nonceName pairs
      signature := find? signatureName pairs
      code := find? codeName pairs }

/-- What follows `front` in a text that begins with it. -/
def after? : List Char → List Char → Option (List Char)
  | [], text => some text
  | c :: front, d :: text => if c = d then after? front text else none
  | _ :: _, [] => none

def token? (h : Headers) : Option String :=
  (after? bearerFront.toList h.authorization.toList).map String.ofList

end Headers
end FieldLink.Handshake
