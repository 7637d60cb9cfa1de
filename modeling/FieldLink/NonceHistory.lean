import FieldLink.Description
import FieldLink.Octets

/-!
# The nonces of the last commands that were accepted

There are eight places; when all are taken, the nonce with the oldest time stamp makes room, the first of
several.
-/

namespace FieldLink

structure NonceEntry where
  nonce : Octets
  timestamp : UInt64
deriving DecidableEq

/-- Up to eight nonces, each in its place. -/
structure NonceHistory where
  entries : List NonceEntry
  length_le : entries.length ≤ 8

namespace NonceHistory

def depth : Nat := 8
def maxNonceLength : Nat := 16

def empty : NonceHistory := ⟨[], by decide⟩

/-- Whether a nonce may be used: it has one to sixteen octets. -/
def isNonce (nonce : Octets) : Bool := nonce ≠ [] ∧ nonce.length ≤ maxNonceLength

def contains (h : NonceHistory) (nonce : Octets) : Bool := h.entries.any (·.nonce == nonce)

/-- The place of the oldest entry, the first of several. -/
def oldest (entries : List NonceEntry) : Nat :=
  entries.findIdx fun entry => entries.all fun other => entry.timestamp ≤ other.timestamp

def record (h : NonceHistory) (nonce : Octets) (timestamp : UInt64) : NonceHistory :=
  if isNonce nonce then
    if hfree : h.entries.length < depth then
      ⟨h.entries ++ [⟨nonce, timestamp⟩], by rw [List.length_append]; exact hfree⟩
    else
      ⟨h.entries.set (oldest h.entries) ⟨nonce, timestamp⟩, by rw [List.length_set]; exact h.length_le⟩
  else h

def size (h : NonceHistory) : Nat := h.entries.length

/-- One place, for diagnostics. The nonce fills up with zeros. -/
def describePlace (taken : Bool) (entry : NonceEntry) : String :=
  let octets := entry.nonce ++ List.replicate (maxNonceLength - entry.nonce.length) 0
  Description.record "NonceSlot" [("nonce", Description.list (octets.map toString)),
    ("len", toString entry.nonce.length), ("timestamp_ms", toString entry.timestamp),
    ("in_use", Description.bool taken)]

def describe (h : NonceHistory) : String :=
  let free := List.replicate (depth - h.entries.length) (describePlace false ⟨[], 0⟩)
  Description.record "NonceHistory"
    [("slots", Description.list (h.entries.map (describePlace true) ++ free))]

end NonceHistory
end FieldLink
