import FieldLink.Sha1
import FieldLink.Sha256

/-! # Keyed digests (RFC 2104) over digests with blocks of 64 octets -/

namespace FieldLink.Hmac

/-- A key as a block; one that is longer is digested first. -/
def keyBlock (digest : Octets → Octets) (key : Octets) : Octets :=
  let key := if 64 < key.length then digest key else key
  key ++ List.replicate (64 - key.length) 0

def mac (digest : Octets → Octets) (key message : Octets) : Octets :=
  let block := keyBlock digest key
  digest (block.map (· ^^^ 0x5c) ++ digest (block.map (· ^^^ 0x36) ++ message))

def sha1 (key message : Octets) : Octets := mac Sha1.digest key message
def sha256 (key message : Octets) : Octets := mac Sha256.digest key message

theorem length_sha1 (key message : Octets) : (sha1 key message).length = 20 :=
  Sha1.length_digest _

theorem length_sha256 (key message : Octets) : (sha256 key message).length = 32 :=
  Sha256.length_digest _

end FieldLink.Hmac
