import LintBridge.Clock

/-! Waiting until something listens on a port. Connections are attempted one after the other, with a
pause between them, until one succeeds or the time is up. Times are spans since the wait began. -/

namespace LintBridge.Worker.Listener

inductive Attempt where
  | succeeds (after : Duration)
  | fails (after : Duration)
  | hangs
  deriving DecidableEq, Repr

structure Wait where
  found : Bool
  ended : Duration
  /-- When attempts were made, the first one first. -/
  attempts : List Duration
  deriving DecidableEq, Repr

/-- Goes on waiting at a time, when a number of attempts were made. An attempt is given up when the
time is up, and none is made if the pause before it would last until then. -/
def waitFrom (pause : Duration) (positive : 0 < pause.nanos) (timeout : Duration)
    (attempt : Nat → Duration → Attempt) (made : Nat) (now : Duration) : Wait :=
  match attempt made now with
  | .hangs => ⟨false, timeout, [now]⟩
  | .succeeds after =>
    if now.nanos + after.nanos ≤ timeout.nanos then ⟨true, now.plus after, [now]⟩
    else ⟨false, timeout, [now]⟩
  | .fails after =>
    if timeout.nanos < now.nanos + after.nanos then ⟨false, timeout, [now]⟩
    else if timeout.nanos ≤ now.nanos + after.nanos + pause.nanos then
      ⟨false, now.plus after, [now]⟩
    else
      let rest := waitFrom pause positive timeout attempt (made + 1)
        ((now.plus after).plus pause)
      { rest with attempts := now :: rest.attempts }
termination_by timeout.nanos - now.nanos
decreasing_by
  simp only [Duration.plus]
  omega

def pause : Duration := .ofMillis 20

theorem pause_pos : 0 < pause.nanos := by decide

/-- Waits for a listener, given how each attempt goes: by its number, and by the time when it is
made. -/
def wait (timeout : Duration) (attempt : Nat → Duration → Attempt) : Wait :=
  waitFrom pause pause_pos timeout attempt 0 ⟨0⟩

/-- Attempts that fail at once until there is a listener, if there ever is one, and then succeed. -/
def attemptsOf (since : Option Duration) (_ : Nat) (now : Duration) : Attempt :=
  match since with
  | some time => if time.nanos ≤ now.nanos then .succeeds ⟨0⟩ else .fails ⟨0⟩
  | none => .fails ⟨0⟩

/-- The point in time at which a wait is up, if a clock can tell it. -/
def deadline? (start : Instant) (timeout : Duration) : Option Instant := start.after? timeout

end LintBridge.Worker.Listener
