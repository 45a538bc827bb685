import LintBridge.Proofs.Worker.Steps
import LintBridge.Worker.Deadline
import Mathlib.Algebra.Ring.Nat

/-! A supervisor with a clock.  A step comes to what it comes to without the clock, but for the wait
for a process, which breaks the program down if the clock cannot tell its deadline (`step_timed`).
So where every deadline can be told an operation comes to what it comes to without the clock
(`ensureRunning_timed`), and where none can be told the program has broken down just if there was a
process to wait for (`isFated_ensureRunning`). -/

namespace LintBridge

/-! ### Points in time -/

theorem Instant.isSome_after?_ofSecs {now : Instant} {n : Nat} :
    (now.after? (.ofSecs n)).isSome = true ↔ now.sinceStart.secs + n < 2 ^ 63 := by
  have secs : (now.sinceStart.nanos + n * 1000000000) / 1000000000 = now.sinceStart.secs + n :=
    Nat.add_mul_div_right _ n (by decide)
  have later : (now.after? (.ofSecs n)).isSome =
      decide ((now.sinceStart.nanos + n * 1000000000) / 1000000000 < 2 ^ 63) := by
    unfold after? isTellable
    dsimp only
    split
    next told => exact told.symm
    next untold => exact (Bool.eq_false_iff.mpr untold).symm
  rw [later, secs, decide_eq_true_eq]

namespace Worker

variable {σ α : Type} {p : Platform σ} {now : σ → Instant}

/-- A clock can tell when a span of time will have passed, whenever it is asked. -/
def IsTold (now : σ → Instant) (timeout : Duration) : Prop :=
  ∀ v, (Listener.deadline? (now v) timeout).isSome = true

/-- A clock can never tell when a span of time will have passed. -/
def IsUntold (now : σ → Instant) (timeout : Duration) : Prop :=
  ∀ v, Listener.deadline? (now v) timeout = none

theorem isTold_ofSecs {n : Nat} :
    IsTold now (.ofSecs n) ↔ ∀ v, (now v).sinceStart.secs + n < 2 ^ 63 :=
  forall_congr' fun _ => Instant.isSome_after?_ofSecs

theorem isUntold_ofSecs {n : Nat} :
    IsUntold now (.ofSecs n) ↔ ∀ v, 2 ^ 63 ≤ (now v).sinceStart.secs + n := by
  refine forall_congr' fun v => ?_
  rw [← Nat.not_lt, ← Instant.isSome_after?_ofSecs, ← Option.not_isSome_iff_eq_none]
  rfl

/-! ### Settings -/

theorem Supervised.options_checkedProgram (runtime : String) (s : Supervised σ) :
    (s.checkedProgram p runtime).2.supervisor.options = s.supervisor.options := by
  rcases checked : p.checkRuntime runtime s.world with ⟨e | found, world⟩
  · simp only [checkedProgram, checked, note]
  · cases told : found.notice? <;>
      simp only [checkedProgram, checked, told, Option.elim, notify, log, note]

theorem Supervised.options_chooseProgram (s : Supervised σ) :
    (s.chooseProgram p).2.supervisor.options = s.supervisor.options := by
  unfold chooseProgram
  split
  · rfl
  · split
    · exact options_checkedProgram _ s
    · rfl

theorem Supervised.options_awaitListener (process : ProcessId) (port : Nat) (s : Supervised σ) :
    (s.awaitListener p process port).2.supervisor.options = s.supervisor.options := by
  cases came : (p.awaitStartup process port s.supervisor.options.timeout s.world).1 <;>
    simp only [awaitListener, came, log, note]

theorem Supervised.options_reset (s : Supervised σ) :
    s.reset.supervisor.options = s.supervisor.options := by
  unfold reset
  split <;> rfl

theorem options_goOn {next : α → Point} {r : Except Error α × Supervised σ} :
    (Point.goOn next r).2.supervisor.options = r.2.supervisor.options := by
  rcases r with ⟨e | a, s⟩ <;> rfl

/-- No step changes how workers are launched. -/
theorem options_step (point : Point) (s : Supervised σ) :
    (point.step p s).2.supervisor.options = s.supervisor.options := by
  cases point with
  | checking =>
    simp only [Point.step]
    split
    · rfl
    · split
      · rfl
      · split <;> rfl
  | discarding worker | replacing worker | clearing process e | closing worker => rfl
  | deploying | choosingPort | checkingEntry port | makingClient port program =>
    exact options_goOn
  | choosingProgram port => exact options_goOn.trans (Supervised.options_chooseProgram s)
  | launching port command =>
    refine options_goOn.trans ?_
    simp only [Supervised.launch]
    split <;> rfl
  | awaiting process port =>
    rw [← Supervised.options_awaitListener process port s, Point.step]
    rcases s.awaitListener p process port with ⟨_ | _, t⟩ <;> rfl
  | stopping =>
    simp only [Point.step]
    split
    · exact Supervised.options_reset _
    · rfl
  | ending worker => exact Supervised.options_reset _

theorem Finishes.options {point : Point} {s s' : Supervised σ} {reply : Reply}
    (h : Finishes p point s reply s') : s'.supervisor.options = s.supervisor.options := by
  induction h with
  | @done point s s' reply step =>
    have kept := options_step (p := p) point s
    rwa [step] at kept
  | @next point next s t s' reply step rest ih =>
    have kept := options_step (p := p) point s
    rw [step] at kept
    exact ih.trans kept

/-! ### Steps with a clock -/

namespace Supervised

/-- A supervisor with a clock, in a program that has broken down or not. -/
def timed (v : Supervised σ) (isBroken : Bool) : Supervised (Timed σ) :=
  ⟨v.supervisor, ⟨v.world, isBroken⟩, v.history⟩

/-- What is given without a clock is given with it. -/
def lift (isBroken : Bool) (r : α × Supervised σ) : α × Supervised (Timed σ) :=
  (r.1, r.2.timed isBroken)

variable (v : Supervised σ) (b : Bool)

@[simp] theorem supervisor_timed : (v.timed b).supervisor = v.supervisor := rfl

@[simp] theorem ask_timed (worker : Held) (call : Call) :
    (v.timed b).ask (p.timed now) worker call = lift b (v.ask p worker call) := rfl

theorem checkedProgram_timed (runtime : String) :
    (v.timed b).checkedProgram (p.timed now) runtime = lift b (v.checkedProgram p runtime) := by
  rcases checked : p.checkRuntime runtime v.world with ⟨e | found, world⟩
  · simp only [checkedProgram, Platform.timed, timed, Timed.give, lift, checked, note]
  · cases told : found.notice? <;>
      simp only [checkedProgram, Platform.timed, timed, Timed.give, lift, checked, told,
        Option.elim, notify, log, note]

theorem chooseProgram_timed :
    (v.timed b).chooseProgram (p.timed now) = lift b (v.chooseProgram p) := by
  simp only [chooseProgram, supervisor_timed]
  cases v.supervisor.options.runtime with
  | none => rfl
  | some runtime =>
    simp only [checkedProgram_timed]
    cases v.supervisor.options.checkVersion <;> rfl

theorem launch_timed (command : Command) :
    (v.timed b).launch (p.timed now) command = lift b (v.launch p command) := by
  rcases spawned : p.spawn v.supervisor.spawned command v.world with ⟨_ | _, world⟩ <;>
    simp only [launch, Platform.timed, timed, Timed.give, spawned, lift, note]

theorem reset_timed : (v.timed b).reset = v.reset.timed b := by
  by_cases failed : v.supervisor.phase = .failed
  · simp only [reset, supervisor_timed, failed, if_true]
  · simp only [reset, supervisor_timed, failed, if_false]
    rfl

end Supervised

open Supervised (lift)

theorem goOn_lift (b : Bool) (next : α → Point) (r : Except Error α × Supervised σ) :
    Point.goOn next (lift b r) = lift b (Point.goOn next r) := by
  rcases r with ⟨e | a, s⟩ <;> rfl

/-- A step is a wait for a process, or it comes to what it comes to without the clock. -/
theorem step_timed (point : Point) (v : Supervised σ) (b : Bool)
    (other : ∀ process port, point ≠ .awaiting process port) :
    point.step (p.timed now) (v.timed b) = lift b (point.step p v) := by
  cases point with
  | awaiting process port => exact absurd rfl (other process port)
  | checking =>
    by_cases failed : v.supervisor.phase = .failed
    · simp only [Point.step, Supervised.supervisor_timed, failed, if_true]
      rfl
    · simp only [Point.step, Supervised.supervisor_timed, Supervised.ask_timed, failed, if_false]
      cases v.supervisor.worker with
      | none => rfl
      | some worker =>
        by_cases alive : isAlive (v.ask p worker .status).1.reply? = true
        · simp only [lift, alive, if_true]
          rfl
        · simp only [lift, alive]
          rfl
  | discarding worker | replacing worker | clearing process e | closing worker => rfl
  | deploying => exact goOn_lift b (fun _ => .choosingPort) (v.deploy p)
  | choosingPort => exact goOn_lift b .checkingEntry (v.choosePort p)
  | checkingEntry port =>
    exact goOn_lift b (fun _ => .choosingProgram port) (v.checkEntry p)
  | choosingProgram port =>
    rw [Point.step, Supervised.chooseProgram_timed]
    exact goOn_lift b _ _
  | makingClient port program =>
    let command := Supervised.commandFor v.supervisor program port
    exact goOn_lift b (fun _ => .launching port command)
      ((v.remember command).makeClient p port)
  | launching port command =>
    rw [Point.step, Supervised.launch_timed]
    exact goOn_lift b _ _
  | stopping =>
    have noted : (v.timed b).note .stopped = (v.note .stopped).timed b := rfl
    simp only [Point.step, noted, Supervised.supervisor_timed, Supervised.reset_timed]
    cases (v.note .stopped).supervisor.worker <;> rfl
  | ending worker =>
    have finished : (v.timed b).finish (p.timed now) worker = (v.finish p worker).timed b := rfl
    simp only [Point.step, finished, Supervised.reset_timed]
    rfl

section Awaiting

variable {timeout : Duration} (process : ProcessId) (port : Nat) (v : Supervised σ) (b : Bool)
  (set : v.supervisor.options.timeout = timeout)
include set

theorem awaiting_told (told : IsTold now timeout) :
    (Point.awaiting process port).step (p.timed now) (v.timed b) =
      lift b ((Point.awaiting process port).step p v) := by
  obtain ⟨deadline, tells⟩ := Option.isSome_iff_exists.mp (told v.world)
  have waited : (v.timed b).awaitListener (p.timed now) process port =
      lift b (v.awaitListener p process port) := by
    subst set
    cases came : (p.awaitStartup process port v.supervisor.options.timeout v.world).1 <;>
      simp only [Supervised.awaitListener, Platform.timed, Supervised.timed, tells, Timed.give,
        came, lift, Supervised.log, Supervised.note]
  rw [Point.step, Point.step, waited]
  rcases v.awaitListener p process port with ⟨_ | _, t⟩ <;> rfl

/-- Where the clock cannot tell the deadline, a wait is the end of the program. -/
theorem awaiting_untold (untold : IsUntold now timeout) :
    (Point.awaiting process port).step (p.timed now) (v.timed b) =
      (.next (.clearing process (.startTimeout timeout)),
        (v.note (.started process .timedOut)).timed true) := by
  subst set
  simp only [Point.step, Supervised.awaitListener, Platform.timed, Supervised.timed,
    untold v.world, Supervised.note]

end Awaiting

/-! ### Operations with a clock that can tell -/

/-- From a point, an operation comes to one end. -/
theorem Finishes.unique {point : Point} {s t t' : Supervised σ} {reply reply' : Reply}
    (h : Finishes p point s reply t) (h' : Finishes p point s reply' t') :
    reply = reply' ∧ t = t' := by
  induction h with
  | done step =>
    cases h' with
    | done step' =>
      cases step.symm.trans step'
      exact ⟨rfl, rfl⟩
    | next step' => cases step.symm.trans step'
  | next step rest ih =>
    cases h' with
    | done step' => cases step.symm.trans step'
    | next step' rest' =>
      cases step.symm.trans step'
      exact ih rest'

section Told

variable {timeout : Duration} (told : IsTold now timeout)
include told

theorem step_told (point : Point) (v : Supervised σ) (b : Bool)
    (set : v.supervisor.options.timeout = timeout) :
    point.step (p.timed now) (v.timed b) = lift b (point.step p v) := by
  cases point with
  | awaiting process port => exact awaiting_told process port v b set told
  | _ => exact step_timed _ v b nofun

theorem Finishes.timed {point : Point} {v v' : Supervised σ} {reply : Reply}
    (h : Finishes p point v reply v') (b : Bool) (set : v.supervisor.options.timeout = timeout) :
    Finishes (p.timed now) point (v.timed b) reply (v'.timed b) := by
  induction h with
  | @done point v v' reply step =>
    refine .done ?_
    rw [step_told told point v b set, step]
    rfl
  | @next point next v t v' reply step rest ih =>
    have kept := options_step (p := p) point v
    rw [step] at kept
    refine .next ?_ (ih (by rw [kept, set]))
    rw [step_told told point v b set, step]
    rfl

/-- With a clock that can tell the deadline, it is made sure that a worker runs as without it. -/
theorem ensureRunning_timed (v : Supervised σ) (b : Bool)
    (set : v.supervisor.options.timeout = timeout) :
    (v.timed b).ensureRunning (p.timed now) = lift b (v.ensureRunning p) := by
  obtain ⟨reply, state⟩ := finishes_checking.unique
    (Finishes.timed told (finishes_checking (p := p) (s := v)) b set)
  exact Prod.ext (Reply.ensured.inj reply) state

end Told

/-! ### Operations with a clock that cannot tell -/

def Point.isAwaiting : Point → Bool
  | awaiting _ _ => true
  | _ => false

/-- A step creates a process and comes to wait for it, or it does neither. -/
theorem Advance.spawned {point : Point} {t t' : Standing} {turn : Turn}
    (h : Advance point t turn t') :
    (turn.point?.any Point.isAwaiting = true ∧ 0 < t'.spawned) ∨
      turn.point?.any Point.isAwaiting = false ∧ t'.spawned = t.spawned := by
  cases h with
  | launched => exact .inl ⟨rfl, Nat.succ_pos _⟩
  | @prepared t point next early still =>
    refine .inr ⟨?_, rfl⟩
    cases next <;> first | rfl | cases still
  | _ => exact .inr ⟨rfl, rfl⟩

/-- How a supervisor with a timeout stands where the clock can tell no deadline.  Where it is to
wait for a process there is one, and else the program has broken down just if there was one. -/
structure IsFated (timeout : Duration) (at? : Option Point) (w : Supervised (Timed σ)) :
    Prop where
  set : w.supervisor.options.timeout = timeout
  awaits : at?.any Point.isAwaiting = true → 0 < w.supervisor.spawned
  broken : at?.any Point.isAwaiting = false →
    (w.world.isBroken = true ↔ 0 < w.supervisor.spawned)

section Untold

variable {timeout : Duration} (untold : IsUntold now timeout)
include untold

theorem IsFated.step {point : Point} {w w' : Supervised (Timed σ)} {turn : Turn}
    (fated : IsFated timeout (some point) w) (step : point.step (p.timed now) w = (turn, w')) :
    IsFated timeout turn.point? w' := by
  let v : Supervised σ := ⟨w.supervisor, w.world.world, w.history⟩
  have whole : point.step (p.timed now) (v.timed w.world.isBroken) = (turn, w') := step
  have kept := options_step (p := p.timed now) point w
  have advance := advance_of_step step
  rw [step] at kept
  by_cases waiting : point.isAwaiting = true
  · cases point with
    | awaiting process port =>
      rw [awaiting_untold process port v _ fated.set untold] at whole
      cases whole
      exact ⟨fated.set, nofun, fun _ => ⟨fun _ => fated.awaits rfl, fun _ => rfl⟩⟩
    | _ => cases waiting
  · have other : ∀ process port, point ≠ .awaiting process port := by
      rintro process port rfl
      exact waiting rfl
    rw [step_timed point v _ other] at whole
    obtain rfl : (Point.step p point v).2.timed w.world.isBroken = w' := congrArg Prod.snd whole
    have set := (congrArg LaunchOptions.timeout kept).trans fated.set
    refine ⟨set, fun awaits => ?_, fun still => ?_⟩
    · obtain ⟨-, some⟩ | ⟨none, -⟩ := advance.spawned
      · exact some
      · cases awaits.symm.trans none
    · obtain ⟨some, -⟩ | ⟨-, same⟩ := advance.spawned
      · cases still.symm.trans some
      · have before := fated.broken (Bool.eq_false_iff.mpr waiting)
        exact before.trans (iff_of_eq (congrArg (0 < ·) same.symm))

theorem IsFated.finishes {point : Point} {w w' : Supervised (Timed σ)} {reply : Reply}
    (finishes : Finishes (p.timed now) point w reply w') (fated : IsFated timeout (some point) w) :
    IsFated timeout none w' := by
  induction finishes with
  | done step => exact fated.step untold step
  | next step rest ih => exact ih (fated.step untold step)

variable {w : Supervised (Timed σ)} (fated : IsFated timeout none w)
include fated

/-- Without an operation under way, and before one that does not begin with a wait. -/
theorem isFated_ensureRunning : IsFated timeout none (w.ensureRunning (p.timed now)).2 :=
  IsFated.finishes untold finishes_checking ⟨fated.set, nofun, fated.broken⟩

theorem isFated_stop : IsFated timeout none (w.stop (p.timed now)) :=
  IsFated.finishes untold finishes_stopping ⟨fated.set, nofun, fated.broken⟩

end Untold

end Worker

end LintBridge
