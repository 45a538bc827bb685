import LintBridge.Shared

/-! Cancellation. A signal remembers that it was cancelled, and the one guarded call that it tracks;
cancelling it aborts that call. Only one call is tracked at a time: a later one takes the place of
an earlier one, and the end of any call leaves none tracked. -/

namespace LintBridge

/-- The number of a guarded call, in the order in which the calls of a signal start. -/
abbrev CallId := Nat

structure Cancellation where
  cancelled : Bool := false
  tracked : Option CallId := none
  /-- The calls that were aborted, the last one first. -/
  aborted : List CallId := []
  started : Nat := 0
  deriving DecidableEq, Repr, Inhabited

namespace Cancellation

/-- The text of the error of a call that did not take place or was aborted. -/
def message : String := "analysis cancelled"

/-- The signal once it is cancelled. -/
def cancel (s : Cancellation) : Cancellation :=
  { s with cancelled := true, tracked := none, aborted := s.tracked.toList ++ s.aborted }

/-- The call that starts, if the signal lets it, and the signal then. -/
def begin? (s : Cancellation) : Option CallId × Cancellation :=
  if s.cancelled then (none, s)
  else (some s.started, { s with tracked := some s.started, started := s.started + 1 })

/-- The signal once a call has ended, for whatever reason. -/
def finish (s : Cancellation) : Cancellation := { s with tracked := none }

def isAborted (s : Cancellation) (call : CallId) : Bool := s.aborted.contains call

/-! ### Calls that take time -/

/-- Where a guarded call stands. The result of a call that was refused or aborted is `none`. -/
inductive Stage (α : Type) where
  | waiting
  /-- Its future is being polled. -/
  | polled
  /-- It has its result, and the signal may still track it. -/
  | leaving (result : Option α)
  | returned (result : Option α)
  deriving DecidableEq, Repr

/-- What a guarded call does. -/
inductive Act (α : Type) where
  | poll
  | ready (value : α)
  | pending
  | leave
  deriving DecidableEq, Repr

def Stage.result? : Stage α → Option (Option α)
  | .leaving result | .returned result => some result
  | .waiting | .polled => none

/-- The stage after an act, if it can come at that stage. Whether the call was aborted is looked up
before its future is polled, and again after a poll that gave no value. -/
def Stage.next? (isAborted : Bool) : Stage α → Act α → Option (Stage α)
  | .waiting, .poll => some (if isAborted then .leaving none else .polled)
  | .polled, .ready value => some (.leaving (some value))
  | .polled, .pending => some (if isAborted then .leaving none else .waiting)
  | .leaving result, .leave => some (.returned result)
  | _, _ => none

def Act.effect : Act α → Cancellation → Cancellation
  | .leave => finish
  | .poll | .ready _ | .pending => id

structure Call (α : Type) where
  handle : Nat
  /-- What the signal tracks it by, unless it was refused. -/
  number : Option CallId
  stage : Stage α
  deriving DecidableEq, Repr

/-- A call once it has asked the signal to let it start. -/
def Call.entering (handle : Nat) : Option CallId → Call α
  | some number => ⟨handle, number, .waiting⟩
  | none => ⟨handle, none, .returned none⟩

/-- The handles on a signal, and the calls guarded by it in the order of their starts. -/
structure Guards (α : Type) where
  signals : Shared Cancellation := .single {}
  calls : List (Call α) := []
  deriving Repr

inductive Move (α : Type) where
  | clone (handle : Nat)
  | cancel (handle : Nat)
  | start (handle : Nat)
  /-- The call at a place acts. -/
  | act (call : Nat) (act : Act α)
  deriving DecidableEq, Repr

namespace Guards

/-- The state after a move, if it can be made. -/
def step? (g : Guards α) : Move α → Option (Guards α)
  | .clone h => (g.signals.get? h).map fun _ => { g with signals := g.signals.clone h }
  | .cancel h =>
    (g.signals.get? h).map fun _ => { g with signals := g.signals.modify h Cancellation.cancel }
  | .start h => (g.signals.get? h).map fun s =>
    { signals := g.signals.modify h fun s => s.begin?.2
      calls := g.calls ++ [.entering h s.begin?.1] }
  | .act c act => do
    let call ← g.calls[c]?
    let s ← g.signals.get? call.handle
    let stage ← call.stage.next? (call.number.any s.isAborted) act
    return { signals := g.signals.modify call.handle act.effect
             calls := g.calls.set c { call with stage } }

def run? (g : Guards α) (moves : List (Move α)) : Option (Guards α) := moves.foldlM step? g

/-- Makes those of the moves that can be made, in order. -/
def attempt (g : Guards α) (moves : List (Move α)) : Guards α :=
  moves.foldl (fun g move => (g.step? move).getD g) g

def stage? (g : Guards α) (call : Nat) : Option (Stage α) := g.calls[call]?.map (·.stage)

/-- The value of a call that has one. -/
def value? (g : Guards α) (call : Nat) : Option α := ((g.stage? call).bind Stage.result?).join

end Guards

/-- What can happen while guarded calls wait. -/
inductive Event where
  | due (call : Nat) (value : Nat)
  | cancel
  deriving DecidableEq, Repr

/-- A poll that gives no value, after which a call that was aborted leaves. -/
def idlePoll (call : Nat) : List (Move Nat) :=
  [.act call .poll, .act call .pending, .act call .leave]

/-- What happens at an event: the call that is due is polled, or each call is, as the cancellation
may have woken it. -/
def Event.moves (calls : Nat) : Event → List (Move Nat)
  | .due call value => [.act call .poll, .act call (.ready value), .act call .leave]
  | .cancel => .cancel 0 :: (List.range calls).flatMap idlePoll

/-- Events with the times at which they happen, in the order of those. -/
def inOrder (events : List (Nat × Event)) : List Event :=
  (events.mergeSort fun a b => a.1 ≤ b.1).map (·.2)

/-- Starts the given calls one after the other, each with the time it takes and its value, and lets
them run while the signal may be cancelled at a time. The values are those of the calls in order. -/
def overlap (s : Cancellation) (calls : List (Nat × Nat)) (cancelAt : Option Nat) :
    List (Option Nat) × Cancellation :=
  let places := List.range calls.length
  let starts := places.flatMap fun call => .start 0 :: idlePoll call
  let dues := calls.zipIdx.map fun ((time, value), call) => (time, Event.due call value)
  let cancels := cancelAt.toList.map fun time => (time, Event.cancel)
  let events := (inOrder (dues ++ cancels)).flatMap (Event.moves calls.length)
  let g := Guards.attempt { signals := .single s } (starts ++ events)
  (places.map g.value?, (g.signals.get? 0).getD s)

inductive Work where
  /-- It has its value at once. -/
  | ready (value : Nat)
  /-- It cancels the signal and then has its value at once. -/
  | cancelReady (value : Nat)
  /-- It cancels the signal and never has a value. -/
  | cancelPending
  /-- It guards a call that has its value at once; if that is refused its own value is 0. -/
  | nested (value : Nat)
  | sleep (time value : Nat)
  deriving DecidableEq, Repr

/-- What happens while the future of the call at place 0 is polled, before it answers. -/
def Work.polled : Work → List (Move Nat)
  | ready _ | sleep .. => []
  | cancelReady _ | cancelPending => [.cancel 0]
  | nested value => [.start 0, .act 1 .poll, .act 1 (.ready value), .act 1 .leave]

/-- What the future answers then. -/
def Work.answer (g : Guards Nat) : Work → Act Nat
  | ready value | cancelReady value => .ready value
  | cancelPending | sleep .. => .pending
  | nested _ => .ready ((g.value? 1).getD 0)

/-- Guards a call, while the signal may be cancelled at a time. -/
def guard (s : Cancellation) (work : Work) (cancelAt : Option Nat) : Option Nat × Cancellation :=
  match work with
  | .sleep time value =>
    let (results, s) := s.overlap [(time, value)] cancelAt
    (results.head?.join, s)
  | work =>
    let g := Guards.attempt { signals := .single s } [.start 0, .act 0 .poll]
    -- The future of a call that was refused is not polled, so nothing comes of it.
    let g := if g.stage? 0 = some .polled then g.attempt work.polled else g
    let g := g.attempt [.act 0 (work.answer g), .act 0 .leave]
    (g.value? 0, (g.signals.get? 0).getD s)

end Cancellation

end LintBridge
