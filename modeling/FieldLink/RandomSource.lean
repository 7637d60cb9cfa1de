import FieldLink.Octets

/-!
# Random octets as a stream with a position

What draws from a source hands the rest of it back.
-/

namespace FieldLink

structure RandomSource where
  octet : Nat → UInt8
  position : Nat

namespace RandomSource

/-- The source that repeats some octets for ever, and zeros where there are none. -/
def cycle (octets : Octets) : RandomSource :=
  let pattern := octets.toArray
  ⟨fun i => pattern.getD (i % pattern.size) 0, 0⟩

def draw (n : Nat) (source : RandomSource) : Octets × RandomSource :=
  ((List.range n).map fun i => source.octet (source.position + i),
    { source with position := source.position + n })

@[simp] theorem length_draw (n : Nat) (source : RandomSource) : (source.draw n).1.length = n := by
  simp [draw]

end RandomSource
end FieldLink
