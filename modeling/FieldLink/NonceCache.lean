import FieldLink.Octets

/-!
# The nonces of recent handshakes

They stand in the order of admission and are bounded in number and in age. Looking a nonce up forgets the old
ones first.
-/

namespace FieldLink

structure NonceCache where
  capacity : Nat
  window : UInt64
  entries : List (Octets × UInt64)

namespace NonceCache

/-- An empty cache, with room for one nonce at least. -/
def empty (capacity : Nat) (window : UInt64) : NonceCache := ⟨max capacity 1, window, []⟩

/-- Whether an entry is still in the window. One from the future is. -/
def isLive (window now : UInt64) (entry : Octets × UInt64) : Bool :=
  now.toNat - entry.2.toNat ≤ window.toNat

def purge (c : NonceCache) (now : UInt64) : NonceCache :=
  { c with entries := c.entries.filter (isLive c.window now) }

def lookUp (c : NonceCache) (nonce : Octets) (now : UInt64) : Bool × NonceCache :=
  let c := c.purge now
  (c.entries.any (·.1 == nonce), c)

/-- Adds a nonce; the oldest one makes room when the cache is full. -/
def record (c : NonceCache) (nonce : Octets) (now : UInt64) : NonceCache :=
  let c := c.purge now
  let kept := if c.capacity ≤ c.entries.length then c.entries.drop 1 else c.entries
  { c with entries := kept ++ [(nonce, now)] }

end NonceCache
end FieldLink
