import LintBridge.Proofs.Worker.Callers

/-! Which processes of a supervisor were put an end to.  At any moment that is all of them but at
most one: the process of the worker that it holds, or the one with which the operation is busy that
keeps the supervisor to itself. -/

namespace LintBridge.Worker

variable {σ : Type}

/-- The process with which a point or, at the points that leave the worker alone, the supervisor is
busy. -/
def subject : Option Point → Standing → Option ProcessId
  | none, t | some .checking, t | some .stopping, t => t.worker.map Held.process
  | some (.discarding worker), _ | some (.replacing worker), _ | some (.closing worker), _
  | some (.ending worker), _ => some worker.process
  | some (.awaiting process _), _ | some (.clearing process _), _ => some process
  | some .deploying, _ | some .choosingPort, _ | some (.checkingEntry _), _
  | some (.choosingProgram _), _ | some (.makingClient _ _), _ | some (.launching _ _), _ => none

/-- All processes were put an end to, but the one with which the supervisor is busy. -/
structure Accounted (at? : Option Point) (t : Standing) : Prop where
  subject_lt : ∀ id, subject at? t = some id → id < t.spawned
  ended_lt : ∀ id ∈ t.ended, id < t.spawned
  ended_of_ne : ∀ id < t.spawned, subject at? t ≠ some id → id ∈ t.ended

namespace Accounted

variable {at? at?' : Option Point} {t t' : Standing}

/-- A step that is busy with the same process, and neither creates one nor ends one. -/
theorem of_same (acc : Accounted at? t) (same : subject at?' t' = subject at? t)
    (spawned : t'.spawned = t.spawned) (ended : t'.ended = t.ended) : Accounted at?' t' := by
  constructor
  · intro id busy
    rw [spawned]
    exact acc.subject_lt id (same ▸ busy)
  · intro id gone
    rw [spawned]
    exact acc.ended_lt id (ended ▸ gone)
  · intro id created other
    rw [ended]
    exact acc.ended_of_ne id (spawned ▸ created) (same ▸ other)

/-- A step that puts an end to the process with which it was busy. -/
theorem of_finish (acc : Accounted at? t) {id : ProcessId} (busy : subject at? t = some id)
    (idle : subject at?' t' = none) (spawned : t'.spawned = t.spawned)
    (ended : t'.ended = t.ended ++ [id]) : Accounted at?' t' := by
  constructor
  · intro other busy'
    rw [idle] at busy'
    cases busy'
  · intro other gone
    rw [spawned]
    rw [ended, List.mem_append, List.mem_singleton] at gone
    rcases gone with before | rfl
    · exact acc.ended_lt other before
    · exact acc.subject_lt other busy
  · intro other created _
    rw [ended, List.mem_append, List.mem_singleton]
    by_cases same : other = id
    · exact .inr same
    · refine .inl (acc.ended_of_ne other (spawned ▸ created) ?_)
      rw [busy]
      exact fun h => same (Option.some.inj h).symm

/-- A step that creates a process and is busy with it from then on. -/
theorem of_launch (acc : Accounted at? t) (idle : subject at? t = none)
    (busy : subject at?' t' = some t.spawned) (spawned : t'.spawned = t.spawned + 1)
    (ended : t'.ended = t.ended) : Accounted at?' t' := by
  constructor
  · intro id busy'
    rw [busy] at busy'
    rw [← Option.some.inj busy', spawned]
    exact Nat.lt_succ_self _
  · intro id gone
    rw [spawned]
    exact Nat.lt_succ_of_lt (acc.ended_lt id (ended ▸ gone))
  · intro id created other
    have older : id ≠ t.spawned := fun h => other (busy.trans (congrArg some h.symm))
    rw [spawned] at created
    rw [ended]
    refine acc.ended_of_ne id (Nat.lt_of_le_of_ne (Nat.le_of_lt_succ created) older) ?_
    rw [idle]
    exact (Option.some_ne_none id).symm

end Accounted

theorem subject_of_early {point : Point} (t : Standing) (early : point.isEarly = true) :
    subject (some point) t = none := by
  cases point <;> first | rfl | cases early

theorem Advance.accounted {point : Point} {t t' : Standing} {turn : Turn}
    (step : Advance point t turn t') (fits : Fits (some point) t)
    (acc : Accounted (some point) t) : Accounted turn.point? t' := by
  cases step with
  | refused failed => exact acc.of_same rfl rfl rfl
  | missing usable free => exact acc.of_same (by simp [subject, free, Turn.point?]) rfl rfl
  | healthy held => exact acc.of_same rfl rfl rfl
  | lost held => exact acc.of_same (by simp [subject, held, Turn.point?]) rfl rfl
  | discarded => exact acc.of_same rfl rfl rfl
  | cleared => exact acc.of_finish rfl rfl rfl rfl
  | prepared early still =>
    refine acc.of_same ?_ rfl rfl
    rw [Turn.point?, subject_of_early t still, subject_of_early t early]
  | unprepared early startup =>
    have free : t.worker = none := (fits_of_early early).mp fits
    refine acc.of_same ?_ rfl rfl
    rw [subject_of_early t early]
    simp [subject, free, Turn.point?]
  | launched => exact acc.of_launch rfl rfl rfl rfl
  | unlaunched startup =>
    have free : t.worker = none := fits
    exact acc.of_same (by simp [subject, free, Turn.point?, Standing.launch]) rfl rfl
  | up => exact acc.of_same rfl rfl rfl
  | down startup => exact acc.of_same rfl rfl rfl
  | failed =>
    have free : t.worker = none := fits.1
    exact acc.of_finish rfl (by simp [subject, free, Turn.point?, Standing.finish]) rfl rfl
  | idle free => exact acc.of_same rfl rfl rfl
  | parted held => exact acc.of_same (by simp [subject, held, Turn.point?]) rfl rfl
  | closed => exact acc.of_same rfl rfl rfl
  | ended =>
    have free : t.worker = none := fits
    exact acc.of_finish rfl
      (by simp [subject, free, Turn.point?, Standing.reset, Standing.finish]) rfl rfl

theorem Change.accounted {c d : Crowd σ} (change : Change c d)
    (fits : Fits c.point? c.server.standing) (acc : Accounted c.point? c.server.standing) :
    Accounted d.point? d.server.standing :=
  -- that a step keeps account needs that the point goes with the standing
  And.right <| change.preserves (P := fun at? t => Fits at? t ∧ Accounted at? t)
    (fun _ h => ⟨h.1, h.2.of_same rfl rfl rfl⟩) (fun _ h => ⟨h.1, h.2.of_same rfl rfl rfl⟩)
    (fun step h => ⟨step.fits h.1, step.accounted h.1 h.2⟩) ⟨fits, acc⟩

end LintBridge.Worker
