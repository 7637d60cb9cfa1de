/-! # A clock that is set by hand, in milliseconds since the epoch -/

namespace FieldLink

structure Clock where
  milliseconds : UInt64

namespace Clock

def set (_ : Clock) (now : UInt64) : Clock := ⟨now⟩

/-- Moves forward, past the greatest time to zero. -/
def advance (c : Clock) (step : UInt64) : Clock := ⟨c.milliseconds + step⟩

def seconds (c : Clock) : UInt64 := c.milliseconds / 1000

end Clock
end FieldLink
