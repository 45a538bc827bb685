import LintBridge.Decimal.Shortest

/-! Spans of time, counted in nanoseconds. -/

namespace LintBridge

structure Duration where
  nanos : Nat
  deriving DecidableEq, Repr, Inhabited

namespace Duration

def ofSecs (n : Nat) : Duration := ⟨n * 1000000000⟩

def ofMillis (n : Nat) : Duration := ⟨n * 1000000⟩

def plus (d e : Duration) : Duration := ⟨d.nanos + e.nanos⟩

def secs (d : Duration) : Nat := d.nanos / 1000000000

def millis (d : Duration) : Nat := d.nanos / 1000000

/-- The span in seconds, as a single: whole seconds and the fraction are rounded, then their sum. -/
def asSingle (d : Duration) : Float32 :=
  (UInt64.ofNat d.secs).toFloat32 +
    (UInt64.ofNat (d.nanos % 1000000000)).toFloat32 / (1000000000 : UInt64).toFloat32

def secondsText (d : Duration) : String := Decimal.singleText d.asSingle

end Duration

end LintBridge
