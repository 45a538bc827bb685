import LintBridge.Proofs.Worker.Callers

/-! How often a supervisor launches a worker.  One launch is free; after that only a stop, or a
health check that the held worker fails, leads to another one, and a failed start uses the last one
up (`Change.budget`).  An operation launches at most once (`Change.attempt`), and not at all if the
worker that is held answers.  What the supervisor counts is the number of its launches, modulo
`2 ^ 32` (`Advance.isCounted`). -/

namespace LintBridge.Worker

variable {σ : Type} {p : Platform σ}

/-! ### What is counted -/

namespace Crowd

def launches (c : Crowd σ) : Nat := c.server.timesLaunched

/-- Whether a stop gets the supervisor to itself between two moments. -/
def beginsStop (c d : Crowd σ) : Bool :=
  match c.point?, d.point? with
  | none, some .stopping => true
  | _, _ => false

/-- Whether the worker that is held fails its health check between two moments. -/
def losesWorker (c d : Crowd σ) : Bool :=
  match c.point?, d.point? with
  | some .checking, some (.discarding _) => true
  | _, _ => false

theorem beginsStop_eq_true {c d : Crowd σ} (before : c.point? = none)
    (after : d.point? = some .stopping) : c.beginsStop d = true := by
  rw [beginsStop, before, after]

theorem losesWorker_eq_true {c d : Crowd σ} {worker : Held} (before : c.point? = some .checking)
    (after : d.point? = some (.discarding worker)) : c.losesWorker d = true := by
  rw [losesWorker, before, after]

/-- How many moves of a run are of a kind, which is told from the moments before and after. -/
def count (p : Platform σ) (kind : Crowd σ → Crowd σ → Bool) : List Move → Crowd σ → Nat
  | [], _ => 0
  | move :: moves, c => (kind c (c.step p move)).toNat + count p kind moves (c.step p move)

end Crowd

/-! ### The budget -/

/-- The launches that may still come without a stop or a lost worker. -/
def reserve : Option Point → Standing → Nat
  | none, t | some .checking, t => if t.phase = .notStarted then 1 else 0
  | some (.awaiting _ _), _ | some (.clearing _ _), _ => 0
  | some _, _ => 1

theorem reserve_of_early {point : Point} (t : Standing) (early : point.isEarly = true) :
    reserve (some point) t = 1 := by
  cases point <;> first | rfl | cases early

theorem reserve_rest_le (t : Standing) : reserve none t ≤ 1 := by
  show (if t.phase = .notStarted then 1 else 0) ≤ 1
  split <;> decide

/-- A supervisor that has no worker and has not failed was not started. -/
theorem Standing.IsSettled.notStarted {t : Standing} (settled : t.IsSettled)
    (usable : t.phase ≠ .failed) (free : t.worker = none) : t.phase = .notStarted := by
  have idle : t.phase ≠ .running := fun running => by
    have held := settled.running_iff.mp running
    rw [free] at held
    cases held
  cases phase : t.phase with
  | notStarted => rfl
  | starting => exact absurd phase settled.not_starting
  | running => exact absurd phase idle
  | failed => exact absurd phase usable

/-- A step spends what it launches, unless it finds the worker lost. -/
theorem Advance.budget {point : Point} {t t' : Standing} {turn : Turn}
    (step : Advance point t turn t') (fits : Fits (some point) t) :
    t'.launches + reserve turn.point? t' ≤ t.launches + reserve (some point) t ∨
      (point = .checking ∧ ∃ worker, turn = .next (.discarding worker) ∧ t' = t) := by
  cases step with
  | refused failed => exact .inl (Nat.le_refl _)
  | missing usable free =>
    have fresh : t.phase = .notStarted := fits.notStarted usable free
    left
    simp [reserve, Turn.point?, fresh]
  | healthy held =>
    left
    simp [reserve, Turn.point?]
  | lost held => exact .inr ⟨rfl, _, rfl, rfl⟩
  | discarded => exact .inl (Nat.le_refl _)
  | cleared => exact .inl (Nat.le_refl _)
  | prepared early still =>
    have kept := (reserve_of_early t still).trans (reserve_of_early t early).symm
    exact .inl (Nat.add_le_add_left (Nat.le_of_eq kept) _)
  | unprepared early startup =>
    left
    rw [Turn.point?, reserve_of_early _ early]
    exact Nat.add_le_add_left (reserve_rest_le _) _
  | launched => exact .inl (Nat.le_refl _)
  | unlaunched startup =>
    left
    simp [reserve, Turn.point?, Standing.launch]
  | up =>
    left
    simp [reserve, Turn.point?]
  | down startup => exact .inl (Nat.le_refl _)
  | failed =>
    left
    simp [reserve, Turn.point?, Standing.finish]
  | idle free => exact .inl (Nat.add_le_add_left (reserve_rest_le _) _)
  | parted held => exact .inl (Nat.le_refl _)
  | closed => exact .inl (Nat.le_refl _)
  | ended => exact .inl (Nat.add_le_add_left (reserve_rest_le _) _)

/-- A move spends what it launches, unless it begins a stop or finds the worker lost. -/
theorem Change.budget {c d : Crowd σ} (change : Change c d)
    (fits : Fits c.point? c.server.standing) :
    d.launches + reserve d.point? d.server.standing ≤
      c.launches + reserve c.point? c.server.standing +
        (c.beginsStop d).toNat + (c.losesWorker d).toNat := by
  show d.server.standing.launches + _ ≤ c.server.standing.launches + _ + _ + _
  cases change with
  | aside lock standing replies =>
    have same : d.point? = c.point? := congrArg (Option.map Prod.snd) lock
    rw [same, standing]
    omega
  | begun caller point first free lock standing replies =>
    have before := Crowd.point?_of_free free
    have after := Crowd.point?_of_held lock
    rcases first with rfl | rfl
    · have kept : reserve (some .checking) c.server.standing = reserve none c.server.standing := rfl
      rw [before, after, standing, kept]
      omega
    · have whole : reserve (some .stopping) c.server.standing = 1 := rfl
      rw [Crowd.beginsStop_eq_true before after, Bool.toNat_true, after, standing, whole]
      omega
  | went caller point next held advance lock replies =>
    have before := Crowd.point?_of_held held
    have after := Crowd.point?_of_held lock
    rw [before] at fits
    rcases advance.budget fits with spent | ⟨rfl, worker, lost, same⟩
    · rw [before, after]
      exact Nat.le_add_right_of_le (Nat.le_add_right_of_le spent)
    · cases lost
      have whole : reserve (some (.discarding worker)) c.server.standing = 1 := rfl
      rw [Crowd.losesWorker_eq_true before after, Bool.toNat_true, after, same, whole]
      omega
  | ended caller point reply held advance lock replies =>
    have before := Crowd.point?_of_held held
    have after := Crowd.point?_of_free lock
    rw [before] at fits
    rcases advance.budget fits with spent | ⟨rfl, worker, lost, same⟩
    · rw [before, after]
      exact Nat.le_add_right_of_le (Nat.le_add_right_of_le spent)
    · cases lost

/-- A run spends what it launches, up to the stops and the lost workers. -/
theorem run_budget (moves : List Move) {c : Crowd σ} (fits : Fits c.point? c.server.standing) :
    (c.run p moves).launches + reserve (c.run p moves).point? (c.run p moves).server.standing ≤
      c.launches + reserve c.point? c.server.standing +
        c.count p Crowd.beginsStop moves + c.count p Crowd.losesWorker moves := by
  induction moves generalizing c with
  | nil => exact Nat.le_refl _
  | cons move moves ih =>
    have change := step_changes (p := p) c move
    have first := change.budget fits
    have rest := ih (change.fits fits)
    simp only [Crowd.run_cons, Crowd.count]
    omega

/-! ### The supervisor's own count -/

theorem Standing.IsCounted.launch {t : Standing} (counted : t.IsCounted) : t.launch.IsCounted := by
  show t.counted + 1 = .ofNat (t.launches + 1)
  rw [counted]
  exact (UInt32.ofNat_add _ 1).symm

theorem Advance.isCounted {point : Point} {t t' : Standing} {turn : Turn}
    (step : Advance point t turn t') (counted : t.IsCounted) : t'.IsCounted := by
  cases step with
  | launched => exact counted.launch
  | unlaunched startup => exact counted.launch
  | _ => exact counted

theorem isCounted_run (p : Platform σ) (moves : List Move) {c : Crowd σ}
    (counted : c.server.standing.IsCounted) : (c.run p moves).server.standing.IsCounted :=
  Crowd.run_preserves (P := fun c => c.server.standing.IsCounted)
    (fun c move counted => (step_changes c move).preserves (P := fun _ t => t.IsCounted)
      (fun _ h => h) (fun _ h => h) Advance.isCounted counted) moves c counted

/-! ### One operation -/

/-- The launches that an operation may still make. -/
def Point.attempts : Point → Nat
  | awaiting _ _ | clearing _ _ | stopping | closing _ | ending _ => 0
  | checking | discarding _ | replacing _ | deploying | choosingPort | checkingEntry _
  | choosingProgram _ | makingClient _ _ | launching _ _ => 1

theorem attempts_of_early {point : Point} (early : point.isEarly = true) : point.attempts = 1 := by
  cases point <;> first | rfl | cases early

/-- The launches that may come before the supervisor is free again. -/
def Crowd.attempts (c : Crowd σ) : Nat := c.point?.elim 0 Point.attempts

theorem Advance.attempt {point : Point} {t t' : Standing} {turn : Turn}
    (step : Advance point t turn t') :
    t'.launches + turn.point?.elim 0 Point.attempts ≤ t.launches + point.attempts := by
  cases step with
  | prepared early still =>
    have kept := (attempts_of_early still).trans (attempts_of_early early).symm
    exact Nat.add_le_add_left (Nat.le_of_eq kept) _
  | healthy held => exact Nat.le_add_right _ _
  | refused failed => exact Nat.le_add_right _ _
  | unprepared early startup => exact Nat.le_add_right _ _
  | _ => exact Nat.le_refl _

theorem attempts_le (c : Crowd σ) : c.attempts ≤ 1 := by
  unfold Crowd.attempts
  cases c.point? with
  | none => exact Nat.zero_le _
  | some point => cases point <;> simp [Point.attempts]

theorem Change.attempt {c d : Crowd σ} (change : Change c d) (held : c.lock.isSome = true) :
    d.launches + d.attempts ≤ c.launches + c.attempts := by
  show d.server.standing.launches + _ ≤ c.server.standing.launches + _
  cases change with
  | aside lock standing replies =>
    have same : d.attempts = c.attempts :=
      congrArg (fun lock => (lock.map Prod.snd).elim 0 Point.attempts) lock
    simp only [same, standing, Nat.le_refl]
  | begun caller point first free lock standing replies =>
    rw [free] at held
    cases held
  | went caller point next held advance lock replies =>
    simp only [Crowd.attempts, Crowd.point?, held, lock]
    exact advance.attempt
  | ended caller point reply held advance lock replies =>
    simp only [Crowd.attempts, Crowd.point?, held, lock]
    exact advance.attempt

/-- As long as the supervisor has not been free again, no more is launched than may be. -/
theorem run_attempt (moves : List Move) {c : Crowd σ} (busy : c.IsHeld p moves) :
    (c.run p moves).launches + (c.run p moves).attempts ≤ c.launches + c.attempts := by
  induction moves generalizing c with
  | nil => exact Nat.le_refl _
  | cons move moves ih =>
    have held : c.lock.isSome = true := busy 0 (Nat.zero_lt_succ _)
    have first := (step_changes (p := p) c move).attempt held
    refine Nat.le_trans (ih fun k short => ?_) first
    exact busy (k + 1) (Nat.succ_lt_succ short)

theorem setPhase_self {s : Supervised σ} {phase : Phase} (same : s.supervisor.phase = phase) :
    s.setPhase phase = s := by
  rw [← same]
  rfl

/-- A worker that answers its health check is left alone, and so is everything else. -/
theorem proceed_of_alive {c : Crowd σ} (fits : Fits c.point? c.server.standing) {caller : CallerId}
    {worker : Held} {answer : Answer} {world : σ} (checking : c.lock = some (caller, .checking))
    (held : c.server.supervisor.worker = some worker)
    (asked : p.send worker .status c.server.world = (answer, world))
    (alive : isAlive answer.reply? = true) :
    c.step p .proceed = { c with
      server := { c.server with world }.note (.asked worker .status answer)
      lock := none
      replies := c.replies ++ [(caller, .ensured (.ok ()))] } := by
  have settled : c.server.standing.IsSettled := by
    rw [Crowd.point?_of_held checking] at fits
    exact fits
  have running : c.server.supervisor.phase = .running :=
    settled.running_iff.mpr (congrArg Option.isSome held)
  have usable : c.server.supervisor.phase ≠ .failed := by
    rw [running]
    exact Phase.noConfusion
  have request : c.server.ask p worker .status =
      (answer, { c.server with world }.note (.asked worker .status answer)) := by
    rw [Supervised.ask, asked]
  have stepped : Point.checking.step p c.server = (.done (.ensured (.ok ())),
      { c.server with world }.note (.asked worker .status answer)) := by
    simp only [Point.step, if_neg usable, held, request, if_pos alive, Point.conclude]
    exact congrArg (Prod.mk _) (setPhase_self running)
  exact proceed_done checking stepped

/-! ### All moves -/

/-- A supervisor launches a worker at most once, and once more for every stop and for every worker
that was held and failed its health check; it counts these launches in a word.  Operations that
come one after the other are among the runs of which this is said.  An attempt to make a worker run
launches at most once, and changes nothing if the worker that is held answers. -/
theorem launches_within_budget (p : Platform σ) (bundle : Bundle) (options : LaunchOptions)
    (world : σ) (moves : List Move) :
    let start := Crowd.opened bundle options world
    let stops := start.count p Crowd.beginsStop moves
    let lost := start.count p Crowd.losesWorker moves
    let c := start.run p moves
    c.launches ≤ 1 + stops + lost ∧
    c.server.supervisor.launches = UInt32.ofNat c.launches ∧
    c.server.supervisor.launches.toNat ≤ 1 + stops + lost ∧
    (stops = 0 → lost = 0 → c.launches ≤ 1) ∧
    (∀ ops, ∃ moves, (start.run p moves).server = Supervised.performAll p ops start.server) ∧
    c.Serves p ∧
    (c.lock = none → ∀ caller during,
      (c.step p (.call caller .ensureRunning)).IsHeld p during →
      (c.run p (.call caller .ensureRunning :: during)).launches ≤ c.launches + 1) ∧
    (∀ caller worker answer world', c.lock = some (caller, .checking) →
      c.server.supervisor.worker = some worker →
      p.send worker .status c.server.world = (answer, world') →
      isAlive answer.reply? = true →
      c.step p .proceed = { c with
        server := { c.server with world := world' }.note (.asked worker .status answer)
        lock := none
        replies := c.replies ++ [(caller, .ensured (.ok ()))] }) := by
  intro start stops lost c
  have opened : Fits start.point? start.server.standing := fits_opened bundle options world
  have spent : c.launches + reserve c.point? c.server.standing ≤ 0 + 1 + stops + lost :=
    run_budget moves opened
  have counted : c.server.supervisor.launches = UInt32.ofNat c.launches :=
    isCounted_run p moves rfl
  have fewer : c.server.supervisor.launches.toNat ≤ c.launches := by
    rw [counted, UInt32.toNat_ofNat']
    exact Nat.mod_le _ _
  refine ⟨by omega, counted, by omega, fun _ _ => by omega,
    fun ops => exists_run_performAll p 0 ops rfl rfl, serves p c, ?_, ?_⟩
  · intro free caller during busy
    let d := c.step p (.call caller .ensureRunning)
    have within : (d.run p during).launches + (d.run p during).attempts ≤
        d.launches + d.attempts := run_attempt during busy
    have same : d.server = c.server := by
      simp only [d, Crowd.step, Crowd.begin]
      split <;> rfl
    have before : d.launches = c.launches := congrArg Supervised.timesLaunched same
    have one : d.attempts ≤ 1 := attempts_le d
    show (d.run p during).launches ≤ c.launches + 1
    omega
  · intro caller worker answer world' checking held asked alive
    exact proceed_of_alive (fits_run p moves opened) checking held asked alive

end LintBridge.Worker
