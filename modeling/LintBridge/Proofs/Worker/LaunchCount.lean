import LintBridge.Proofs.Worker.History
import LintBridge.Proofs.Worker.Latch

/-! How many processes a supervisor has created, and how many launches it counts.  A launch that
gave no process is counted too; there is at most one, after which nothing is launched again, and up
to it the count is that of the processes, as far as a word tells it: `launches_tally`. -/

namespace LintBridge.Worker

variable {σ : Type} {p : Platform σ}

def Event.isCreation : Event → Bool
  | .launched _ (.ok _) => true
  | _ => false

def Event.isRefusal : Event → Bool
  | .launched _ (.error _) => true
  | _ => false

theorem Event.not_launch_of_isQuiet {e : Event} (h : e.isQuiet = true) :
    ¬ e.isCreation = true ∧ ¬ e.isRefusal = true := by
  cases e with
  | launched command result => cases h
  | _ => exact ⟨Bool.false_ne_true, Bool.false_ne_true⟩

/-- The launches as a supervisor counts them, the processes that were created, and the launches that
gave no process. -/
@[ext] structure Tally where
  launches : UInt32
  created : Nat
  refused : Nat

/-- What making sure that a worker runs comes to, and what it adds to a tally: nothing if it fails
before there is to be a process, a launch and a process whether or not the worker comes up, and only
a launch if there can be no process. -/
inductive Tallies (a : Tally) : Except Error Unit → Tally → Prop
  | unlaunched {result : Except Error Unit}
      (fails : ∀ e, result = .error e → e = .failedBefore ∨ e.isEarly = true) : Tallies a result a
  | created {result : Except Error Unit} (fails : ∀ e, result = .error e → e.isLate = true) :
      Tallies a result { a with launches := a.launches + 1, created := a.created + 1 }
  | refused {program reason : String} :
      Tallies a (.error (.launch program reason))
        { a with launches := a.launches + 1, refused := a.refused + 1 }

namespace Supervised

def tally (s : Supervised σ) : Tally where
  launches := s.supervisor.launches
  created := s.history.countP Event.isCreation
  refused := s.history.countP Event.isRefusal

variable {s t : Supervised σ}

/-! ### Whole operations -/

theorem QuietTo.tally (quiet : QuietTo s t) : t.tally = s.tally := by
  obtain ⟨⟨added, tells, silent⟩, launches⟩ := quiet
  have none := fun e member => Event.not_launch_of_isQuiet (silent e member)
  have created : added.countP Event.isCreation = 0 :=
    List.countP_eq_zero.mpr fun e member => (none e member).1
  have refused : added.countP Event.isRefusal = 0 :=
    List.countP_eq_zero.mpr fun e member => (none e member).2
  simp only [Supervised.tally, tells, launches, List.countP_append, created, refused, Nat.add_zero]

theorem Launches.tally_created {command : Command} {process : ProcessId}
    (launch : Launches s command (.ok process) t) :
    t.tally = { s.tally with
      launches := s.tally.launches + 1, created := s.tally.created + 1 } := by
  simp [Supervised.tally, launch.history, launch.launches, Event.isCreation, Event.isRefusal]

theorem Launches.tally_refused {command : Command} {reason : String}
    (launch : Launches s command (.error reason) t) :
    t.tally = { s.tally with
      launches := s.tally.launches + 1, refused := s.tally.refused + 1 } := by
  simp [Supervised.tally, launch.history, launch.launches, Event.isCreation, Event.isRefusal]

theorem Comes.tallies {out : Except Error Unit × Supervised σ} (comes : Comes s out) :
    Tallies s.tally out.1 out.2.tally := by
  cases comes with
  | unlaunched quiet fails =>
    rw [quiet.tally]
    exact .unlaunched fails
  | refused before launch after =>
    rw [after.tally, launch.tally_refused, before.tally]
    exact .refused
  | created before launch after fails =>
    rw [after.tally, launch.tally_created, before.tally]
    exact .created fails

theorem tally_ask (worker : Held) (call : Call) : (s.ask p worker call).2.tally = s.tally := by
  simp [ask, note, tally, Event.isCreation, Event.isRefusal]

/-- No other operation has to do with launches. -/
theorem tally_perform (op : Operation) :
    (s.perform p op).2.tally = s.tally ∨
      (s.perform p op).2 = (s.ensureRunning p).2 := by
  cases op with
  | ensureRunning => exact .inr rfl
  | stop => exact .inl (quiet_stop p s).tally
  | ask errand =>
    left
    rw [perform_ask]
    cases s.supervisor.worker with
    | none => rfl
    | some worker => exact tally_ask worker errand.call
  | state => exact .inl rfl
  | takeNotices => exact .inl (quiet_takeNotices s).tally
  | commandInfo => exact .inl rfl

/-! ### All operations -/

/-- The count is that of the processes, but for a launch that gave none and was the last one. -/
structure IsTallied (s : Supervised σ) : Prop where
  settled : s.standing.IsSettled
  total : s.tally.launches = .ofNat (s.tally.created + s.tally.refused)
  once : s.tally.refused = 0 ∨ s.tally.refused = 1 ∧ s.supervisor.phase = .failed

theorem isTallied_fresh (bundle : Bundle) (options : LaunchOptions) (world : σ) :
    (fresh bundle options world).IsTallied :=
  ⟨isSettled_fresh bundle options world, rfl, .inl rfl⟩

theorem isTallied_ensureRunning (h : s.IsTallied) : (s.ensureRunning p).2.IsTallied := by
  by_cases failed : s.supervisor.phase = .failed
  · rw [ensureRunning_of_failed failed]
    exact h
  · have before : s.tally.refused = 0 := h.once.resolve_right fun last => failed last.2
    have total := h.total
    have settled := isSettled_ensureRunning (p := p) h.settled
    have tallies := (comes_ensureRunning (p := p) (s := s)).tallies
    have fails := fun e => failed_of_error (p := p) (e := e) h.settled
    generalize s.ensureRunning p = out at settled tallies fails
    obtain ⟨result, t⟩ := out
    dsimp only at settled tallies fails ⊢
    generalize after : t.tally = b at tallies
    cases tallies with
    | unlaunched fails =>
      refine ⟨settled, ?_, .inl ?_⟩ <;> rw [after]
      · exact total
      · exact before
    | created fails =>
      refine ⟨settled, ?_, .inl ?_⟩ <;> rw [after] <;> dsimp only
      · rw [total, Nat.add_right_comm]
        exact (UInt32.ofNat_add _ 1).symm
      · exact before
    | refused =>
      refine ⟨settled, ?_, .inr ⟨?_, fails _ rfl⟩⟩ <;> rw [after] <;> dsimp only
      · rw [total, ← Nat.add_assoc]
        exact (UInt32.ofNat_add _ 1).symm
      · rw [before]

theorem isTallied_perform (h : s.IsTallied) (op : Operation) : (s.perform p op).2.IsTallied := by
  obtain same | same := tally_perform (p := p) (s := s) op
  · refine ⟨isSettled_perform h.settled op, same ▸ h.total, ?_⟩
    rw [same]
    refine h.once.imp_right fun last => ⟨last.1, ?_⟩
    have kept := standing_perform_of_failed (p := p) last.2 (h.settled.worker_of_failed last.2) op
    exact (congrArg Standing.phase kept).trans last.2
  · rw [same]
    exact isTallied_ensureRunning h

theorem isTallied_performAll (h : s.IsTallied) (ops : List Operation) :
    (performAll p ops s).IsTallied := by
  induction ops generalizing s with
  | nil => exact h
  | cons op ops ih => exact ih (isTallied_perform h op)

end Supervised

/-- Whatever a supervisor has done, the launches that it counts are, as a word, the processes that
were created and the launches that gave none.  Of the latter there is at most one, and then a start
has failed for good.  Making sure that a worker runs adds to the count what `Tallies` says, and
stopping it adds nothing. -/
theorem launches_tally (p : Platform σ) (bundle : Bundle) (options : LaunchOptions) (world : σ)
    (ops : List Operation) :
    let s := Supervised.performAll p ops (Supervised.fresh bundle options world)
    s.tally.launches = UInt32.ofNat (s.tally.created + s.tally.refused) ∧
    (s.tally.refused = 0 ∨ s.tally.refused = 1 ∧ s.supervisor.phase = .failed) ∧
    Tallies s.tally (s.ensureRunning p).1 (s.ensureRunning p).2.tally ∧
    (s.stop p).tally = s.tally := by
  intro s
  have tallied : s.IsTallied :=
    Supervised.isTallied_performAll (Supervised.isTallied_fresh bundle options world) ops
  exact ⟨tallied.total, tallied.once, Supervised.comes_ensureRunning.tallies,
    (Supervised.quiet_stop p s).tally⟩

def Platform.barren : Platform (List ProcessId) :=
  { Platform.steady true with
    spawn := fun _ _ live => (.error "No such file or directory (os error 2)", live) }

/-- A program that cannot be started is counted as launched. -/
theorem launches_barren :
    let options : LaunchOptions := { runtime := some "/no/such/node", checkVersion := false }
    let s := ((Supervised.fresh default options []).ensureRunning Platform.barren).2
    s.supervisor.launches = 1 ∧ s.tally.created = 0 := by
  decide

end LintBridge.Worker
