import LintBridge.Worker.Listener
import LintBridge.Worker.Supervisor.Basic

/-! The deadline of a start. Before a worker is awaited, the clock is asked for the point in time at
which the wait is up. If the clock cannot tell that point, the program breaks down: its processes
end with it, and it does nothing more. -/

namespace LintBridge.Worker

variable {σ α : Type}

/-- A world, and whether the program has broken down in it. -/
structure Timed (σ : Type) where
  world : σ
  isBroken : Bool := false

namespace Timed

/-- What a call gives, in the world that it leads to. -/
def give (t : Timed σ) (call : α × σ) : α × Timed σ := (call.1, { t with world := call.2 })

def enter (t : Timed σ) (world : σ) : Timed σ := { t with world }

end Timed

/-- A platform with a clock, without which no worker can be awaited. -/
def Platform.timed (p : Platform σ) (now : σ → Instant) : Platform (Timed σ) where
  isDir path t := t.give (p.isDir path t.world)
  isFile path t := t.give (p.isFile path t.world)
  freePort t := t.give (p.freePort t.world)
  checkRuntime runtime t := t.give (p.checkRuntime runtime t.world)
  newClient port t := t.give (p.newClient port t.world)
  spawn process command t := t.give (p.spawn process command t.world)
  awaitStartup process port timeout t :=
    match Listener.deadline? (now t.world) timeout with
    | some _ => t.give (p.awaitStartup process port timeout t.world)
    | none => (.timedOut, { t with isBroken := true })
  exitStatus process t := t.give (p.exitStatus process t.world)
  kill process t := t.enter (p.kill process t.world)
  terminate process t := t.enter (p.terminate process t.world)
  send worker call t := t.give (p.send worker call t.world)

end LintBridge.Worker
