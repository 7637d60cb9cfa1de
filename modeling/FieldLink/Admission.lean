import FieldLink.Handshake
import FieldLink.NonceCache
import FieldLink.NumberText

/-!
# Admitting connections

Token, signature, fresh nonce and one-time code are checked in this order, and a nonce is remembered only when
all of them are right.
-/

namespace FieldLink

structure Admission where
  token : String
  cache : NonceCache

namespace Admission

def start (token : String) (cacheSize : Nat) (window : UInt64) : Admission :=
  ⟨token, .empty cacheSize window⟩

def headerOctets (value : Option String) : Except SecurityError Octets :=
  match value.bind Hexadecimal.decode? with
  | some octets => .ok octets
  | none => .error .invalidResponse

def signedNonce (c : SecurityContext) (h : Handshake.Headers) : Except SecurityError Octets := do
  let nonce ← headerOctets h.nonce
  let signature ← headerOctets h.signature
  if nonce.length ≠ Handshake.nonceLength then .error .invalidResponse
  else if Handshake.verify c nonce (Handshake.valueOctets h.authorization) signature then .ok nonce
  else .error .invalidResponse

/-- Checks the one-time code of a request, where codes are on. -/
def checkCode (c : SecurityContext) (h : Handshake.Headers) (time : UInt64) :
    Except SecurityError Unit :=
  if c.codes.isNone then .ok ()
  else
    match h.code.bind fun text => NumberText.read? (2 ^ 32) (trim text.toList) with
    | none => .error .invalidResponse
    | some code => do
      if ← c.verifyCode time (.ofNat code) then .ok () else .error .invalidResponse

/-- Checks a request; the time is in seconds for codes and in milliseconds for nonces. -/
def judge (a : Admission) (c : SecurityContext) (h : Handshake.Headers) (time now : UInt64) :
    Except SecurityError Unit × Admission :=
  if h.token?.getD "" ≠ a.token then (.error .invalidResponse, a)
  else if c.handshakeKey.isNone then (checkCode c h time, a)
  else
    match signedNonce c h with
    | .error e => (.error e, a)
    | .ok nonce =>
      let (used, cache) := a.cache.lookUp nonce now
      if used then (.error .invalidResponse, { a with cache })
      else
        match checkCode c h time with
        | .error e => (.error e, { a with cache })
        | .ok () => (.ok (), { a with cache := cache.record nonce now })

end Admission
end FieldLink
