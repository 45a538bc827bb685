import LintBridge.Duration

/-! Points in time. A clock counts whole seconds in signed words of 64 bits and nanoseconds beside
them, so that a point far enough in the future cannot be told. -/

namespace LintBridge

/-- A point in time, as the span since the clock started. -/
structure Instant where
  sinceStart : Duration
  deriving DecidableEq, Repr, Inhabited

namespace Instant

def start : Instant := ⟨⟨0⟩⟩

def secondsBound : Nat := Nat.pow 2 63

def isTellable (t : Instant) : Bool := t.sinceStart.secs < secondsBound

/-- The point after a span of time, if a clock can tell it. -/
def after? (t : Instant) (d : Duration) : Option Instant :=
  let later : Instant := ⟨⟨t.sinceStart.nanos + d.nanos⟩⟩
  if later.isTellable then some later else none

end Instant

end LintBridge
