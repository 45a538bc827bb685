import LintBridge.Progress
import Mathlib.Algebra.Ring.Nat

/-! What a progress report says in the course of time.  From its start until it is stopped,
cancelled, dropped or replaced a report lives, and what it says can be read off the steps of its
life (`Tells`).  It begins and ends with a line of its own, and in between its ticker strikes at the
multiples of its interval, never too early and never too late; the waits may be cut in any way, and
when the report has ended nothing is logged: `timely`. -/

namespace LintBridge.Progress

/-! ### Steps one after the other -/

/-- The report that some steps leave. -/
def after (report : Option Progress) (steps : List Step) : Option Progress :=
  steps.foldl (fun report step => (step.run report).2) report

/-- What some steps log. -/
def logged (report : Option Progress) : List Step → List Log.Record
  | [] => []
  | step :: rest => (step.run report).1 ++ logged (step.run report).2 rest

section Steps

variable (report : Option Progress) (step : Step) (steps rest : List Step)

theorem after_cons : after report (step :: rest) = after (step.run report).2 rest := rfl

theorem after_append : after report (steps ++ rest) = after (after report steps) rest :=
  List.foldl_append

theorem logged_append :
    logged report (steps ++ rest) = logged report steps ++ logged (after report steps) rest := by
  induction steps generalizing report with
  | nil => rfl
  | cons step steps ih =>
    rw [List.cons_append, logged, logged, ih, List.append_assoc, after_cons]

end Steps

/-! ### What is logged -/

/-- The first line about a number of files. -/
def openingLine (total : Nat) : Log.Record where
  level := .info
  origin := .progress
  text :=
    if total = 1 then "1 source file to be analyzed"
    else toString total ++ " source files to be analyzed"
  cause := ""
  fields := []

/-- The line of a ticker. -/
def tickLine (done total : Nat) (current : Option SourceFile) : Log.Record where
  level := .info
  origin := .progress
  text := toString done ++ "/" ++ toString total ++ " source files have been analyzed" ++
    match current with
    | none => ""
    | some file => ", current file: " ++ file.url.text
  cause := ""
  fields := []

/-- The last line about a number of files, all of which were gone through. -/
def stopLine (done total : Nat) : Log.Record where
  level := .info
  origin := .progress
  text := toString done ++ "/" ++
    if total = 1 then "1 source file have been analyzed"
    else toString total ++ " source files have been analyzed"
  cause := ""
  fields := []

/-- The last line where the run was cancelled before it had gone through all files. -/
def cancelLine (done total : Nat) : Log.Record where
  level := .info
  origin := .progress
  text := "Analysis cancelled after " ++ toString done ++ "/" ++ toString total ++ " source files"
  cause := ""
  fields := []

theorem repr_one : Nat.repr 1 = "1" := rfl

theorem startRecord_eq (p : Progress) : p.startRecord = openingLine p.total := by
  by_cases one : p.total = 1 <;>
    simp [startRecord, openingLine, note, plural, one, repr_one, toString, String.append_assoc]

theorem stopRecord_eq (p : Progress) : p.stopRecord = stopLine p.done p.total := by
  by_cases one : p.total = 1 <;>
    simp [stopRecord, stopLine, note, plural, one, repr_one, toString, String.append_assoc]

theorem cancelRecord_eq (p : Progress) : p.cancelRecord = cancelLine p.done p.total := by
  simp [cancelRecord, cancelLine, note, toString, String.append_assoc]

/-- What a step logs at the end of a report that has come so far. -/
def lastLines (done total : Nat) : Step → List Log.Record
  | .stop => [stopLine done total]
  | .cancel => [cancelLine done total]
  | _ => []

/-! ### Kinds of steps -/

/-- Whether a step leaves the report alive that it finds. -/
def Step.continues : Step → Bool
  | .startFile _ | .finishFile | .wait _ => true
  | .start _ _ | .stop | .cancel | .drop => false

/-- Whether a step ends the report that it finds, and starts no other. -/
def Step.ends : Step → Bool
  | .stop | .cancel | .drop => true
  | .start _ _ | .startFile _ | .finishFile | .wait _ => false

def Step.starts : Step → Bool
  | .start _ _ => true
  | .startFile _ | .finishFile | .wait _ | .stop | .cancel | .drop => false

/-- Where there is no report and none is started, nothing is logged. -/
theorem silent {steps : List Step} (unstarted : ∀ step ∈ steps, step.starts = false) :
    logged none steps = [] ∧ after none steps = none := by
  induction steps with
  | nil => exact ⟨rfl, rfl⟩
  | cons step rest ih =>
    have quiet : step.run none = ([], none) := by
      cases step with
      | start total interval => cases unstarted _ List.mem_cons_self
      | _ => rfl
    rw [logged, after_cons, quiet]
    exact ih fun step member => unstarted step (List.mem_cons_of_mem _ member)

theorem after_ends {step : Step} (ends : step.ends = true) (report : Option Progress) :
    after report [step] = none := by
  cases report with
  | none => cases step <;> first | rfl | cases ends
  | some p => cases step <;> first | rfl | cases ends

/-! ### Reading a life -/

/-- The nanoseconds that pass in a step. -/
def Step.span : Step → Nat
  | .wait d => d.nanos
  | _ => 0

/-- The nanoseconds that pass in some steps. -/
def waited (steps : List Step) : Nat := (steps.map Step.span).sum

def finished (steps : List Step) : Nat := steps.count .finishFile

/-- The file that is shown after a step if some file was shown before it. -/
def Step.shows (current : Option SourceFile) : Step → Option SourceFile
  | .startFile file => some file
  | .finishFile => none
  | _ => current

/-- The file that was started last, unless one was finished since then. -/
def shown (steps : List Step) : Option SourceFile := steps.foldl Step.shows none

theorem waited_nil : waited [] = 0 := rfl

theorem waited_append (steps rest : List Step) :
    waited (steps ++ rest) = waited steps + waited rest := by
  simp only [waited, List.map_append, List.sum_append]

theorem waited_le_append (steps rest : List Step) : waited steps ≤ waited (steps ++ rest) := by
  rw [waited_append]
  exact Nat.le_add_right _ _

theorem waited_singleton (step : Step) : waited [step] = step.span := by
  simp only [waited, List.map_singleton, List.sum_singleton]

/-- A report says what can be read off the steps since its start. -/
structure Tells (total : Nat) (interval : Duration) (life : List Step) (p : Progress) : Prop where
  total : p.total = total
  interval : p.interval = interval
  ticking : p.ticking = (Instant.start.after? p.interval).isSome
  elapsed : p.elapsed.nanos = waited life
  done : p.done = finished life
  current : p.current = shown life

section Life

variable {total : Nat} {interval : Duration} {life : List Step} {p : Progress}

theorem tells_start : Tells total interval [] (Progress.start .start total interval) :=
  ⟨rfl, rfl, rfl, rfl, rfl, rfl⟩

theorem Tells.step (h : Tells total interval life p) {step : Step} (continues : step.continues) :
    ∃ p', (step.run (some p)).2 = some p' ∧ Tells total interval (life ++ [step]) p' := by
  have elapsed : waited (life ++ [step]) = p.elapsed.nanos + step.span := by
    rw [waited_append, h.elapsed, waited_singleton]
  have done : finished (life ++ [step]) = p.done + [step].count .finishFile := by
    rw [finished, List.count_append, h.done, finished]
  have current : shown (life ++ [step]) = step.shows p.current := by
    rw [shown, List.foldl_append, h.current]
    rfl
  cases step with
  | startFile file =>
    exact ⟨_, rfl, h.total, h.interval, h.ticking, elapsed.symm, done.symm, current.symm⟩
  | finishFile =>
    exact ⟨_, rfl, h.total, h.interval, h.ticking, elapsed.symm, done.symm, current.symm⟩
  | wait d =>
    exact ⟨_, rfl, h.total, h.interval, h.ticking, elapsed.symm, done.symm, current.symm⟩
  | start | stop | cancel | drop => cases continues

/-- A report goes on telling what its steps say, as long as it lives. -/
theorem Tells.run (h : Tells total interval life p) {steps : List Step}
    (continue' : ∀ step ∈ steps, step.continues) :
    ∃ p', after (some p) steps = some p' ∧ Tells total interval (life ++ steps) p' := by
  induction steps generalizing life p with
  | nil => exact ⟨p, rfl, by rwa [List.append_nil]⟩
  | cons step rest ih =>
    obtain ⟨q, stepped, told⟩ := h.step (continue' step List.mem_cons_self)
    rw [after_cons, stepped, List.append_cons]
    exact ih told fun step member => continue' step (List.mem_cons_of_mem _ member)

/-! ### The ticker -/

/-- A clock can tell when an interval has passed, if it passes in some time at all. -/
def IsTellable (interval : Duration) (nanos : Nat) : Prop :=
  interval.nanos ≤ nanos → (Instant.start.after? interval).isSome

theorem IsTellable.mono {m n : Nat} (h : IsTellable interval n) (le : m ≤ n) :
    IsTellable interval m :=
  fun passed => h (Nat.le_trans passed le)

/-- The strikes of a ticker up to now. -/
theorem Tells.ticks (h : Tells total interval life p)
    (tellable : IsTellable interval (waited life)) : p.ticks = waited life / interval.nanos := by
  rw [Progress.ticks, h.ticking, h.elapsed, h.interval]
  split
  · rfl
  next beyond =>
    have later : waited life < interval.nanos :=
      Nat.lt_of_not_le fun passed => beyond (tellable passed)
    rw [Nat.div_eq_of_lt later]

theorem Tells.tickRecord (h : Tells total interval life p) :
    p.tickRecord = tickLine (finished life) total (shown life) := by
  rw [Progress.tickRecord, h.done, h.total, h.current]
  cases shown life with
  | none => simp [tickLine, note, toString]
  | some file => simp [tickLine, note, SourceFile.display, toString, String.append_assoc]

theorem Tells.stopRecord (h : Tells total interval life p) :
    p.stopRecord = stopLine (finished life) total := by
  rw [stopRecord_eq, h.done, h.total]

theorem Tells.cancelRecord (h : Tells total interval life p) :
    p.cancelRecord = cancelLine (finished life) total := by
  rw [cancelRecord_eq, h.done, h.total]

/-- What is logged in a step of a life: the strikes of the ticker in it. -/
theorem Tells.logs (h : Tells total interval life p) {step : Step} (continues : step.continues)
    (tellable : IsTellable interval (waited (life ++ [step]))) :
    (step.run (some p)).1 = List.replicate
      (waited (life ++ [step]) / interval.nanos - waited life / interval.nanos)
      (tickLine (finished life) total (shown life)) := by
  obtain ⟨q, stepped, told⟩ := h.step continues
  have before := h.ticks (tellable.mono (waited_le_append _ _))
  have now := told.ticks tellable
  rw [← before, ← now, ← h.tickRecord]
  cases step with
  | startFile file =>
    obtain rfl := Option.some.inj stepped
    rw [show (p.startFile file).ticks = p.ticks from rfl, Nat.sub_self]
    rfl
  | finishFile =>
    obtain rfl := Option.some.inj stepped
    rw [show p.finishFile.ticks = p.ticks from rfl, Nat.sub_self]
    rfl
  | wait d =>
    obtain rfl := Option.some.inj stepped
    rfl
  | start | stop | cancel | drop => cases continues

/-- What is logged in some steps of a life is as many strikes as there are multiples of the interval
in the time that passes in them. -/
theorem Tells.length_logged (h : Tells total interval life p) {steps : List Step}
    (continue' : ∀ step ∈ steps, step.continues)
    (tellable : IsTellable interval (waited (life ++ steps))) :
    (logged (some p) steps).length =
      waited (life ++ steps) / interval.nanos - waited life / interval.nanos := by
  induction steps generalizing life p with
  | nil => rw [List.append_nil, Nat.sub_self]; rfl
  | cons step rest ih =>
    have here := continue' step List.mem_cons_self
    obtain ⟨q, stepped, told⟩ := h.step here
    rw [List.append_cons] at tellable ⊢
    have passed : ∀ xs ys, waited xs / interval.nanos ≤ waited (xs ++ ys) / interval.nanos :=
      fun xs ys => Nat.div_le_div_right (waited_le_append xs ys)
    have first := passed life [step]
    have later := passed (life ++ [step]) rest
    have soon : IsTellable interval (waited (life ++ [step])) :=
      tellable.mono (waited_le_append _ rest)
    rw [logged, List.length_append, h.logs here soon, List.length_replicate, stepped,
      ih told (fun step member => continue' step (List.mem_cons_of_mem _ member)) tellable]
    omega

/-- The strike at a multiple of the interval shows what the report says when the wait begins in
which it falls. -/
theorem Tells.getElem?_logged (h : Tells total interval [] p) {earlier later : List Step}
    {d : Duration} (continue' : ∀ step ∈ earlier ++ .wait d :: later, step.continues)
    (tellable : IsTellable interval (waited (earlier ++ .wait d :: later))) {k : Nat}
    (yet : waited earlier < (k + 1) * interval.nanos)
    (passed : (k + 1) * interval.nanos ≤ waited earlier + d.nanos) :
    (logged (some p) (earlier ++ .wait d :: later))[k]? =
      some (tickLine (finished earlier) total (shown earlier)) := by
  have ongoing : ∀ step ∈ earlier, step.continues :=
    fun step member => continue' step (List.mem_append_left _ member)
  obtain ⟨q, reached, told⟩ := h.run ongoing
  rw [List.append_cons] at tellable
  have soon : IsTellable interval (waited (earlier ++ [.wait d])) :=
    tellable.mono (waited_le_append _ later)
  have now : IsTellable interval (waited earlier) := soon.mono (waited_le_append _ _)
  have count : (logged (some p) earlier).length = waited earlier / interval.nanos := by
    rw [h.length_logged ongoing now, List.nil_append, waited_nil, Nat.zero_div, Nat.sub_zero]
  have positive : 0 < interval.nanos := by
    refine Nat.pos_of_ne_zero fun zero => ?_
    rw [zero, Nat.mul_zero] at yet
    exact Nat.not_lt_zero _ yet
  have begun : waited earlier / interval.nanos ≤ k :=
    Nat.lt_succ_iff.mp ((Nat.div_lt_iff_lt_mul positive).mpr yet)
  have struck : k < waited (earlier ++ [.wait d]) / interval.nanos := by
    rw [waited_append, waited_singleton]
    exact (Nat.le_div_iff_mul_le positive).mpr passed
  rw [logged_append, List.getElem?_append_right (count ▸ begun), reached, logged,
    told.logs rfl soon, List.nil_append, count, List.getElem?_append_left,
    List.getElem?_replicate_of_lt]
  · omega
  · rw [List.length_replicate]
    omega

end Life

/-- What is logged in the step that ends a life. -/
theorem Tells.closes {total : Nat} {interval : Duration} {life : List Step} {p : Progress}
    (h : Tells total interval life p) {last : Step} (ends : last.ends = true) :
    (last.run (some p)).1 = lastLines (finished life) total last := by
  cases last with
  | stop => exact congrArg List.singleton h.stopRecord
  | cancel => exact congrArg List.singleton h.cancelRecord
  | drop => rfl
  | start | startFile | finishFile | wait => cases ends

/-- Where the clock cannot tell when the first interval will have passed, nothing is logged as long
as the report lives. -/
theorem logged_of_not_ticking {p : Progress} (still : p.ticking = false) {life : List Step}
    (living : ∀ step ∈ life, step.continues) : logged (some p) life = [] := by
  induction life generalizing p with
  | nil => rfl
  | cons step rest ih =>
    have later := fun step member => living step (List.mem_cons_of_mem _ member)
    cases step with
    | startFile file => exact ih (p := p.startFile file) still later
    | finishFile => exact ih (p := p.finishFile) still later
    | wait d =>
      have silent : (p.wait d).1 = [] := by simp [wait, ticks, still]
      rw [logged, Step.run, silent]
      exact ih (p := (p.wait d).2) still later
    | start | stop | cancel | drop => cases living _ List.mem_cons_self

/-! ### Cutting a wait -/

theorem Tells.remaining {total : Nat} {interval : Duration} {life : List Step} {p : Progress}
    (h : Tells total interval life p) :
    (p.remaining : Int) = max ((total : Int) - finished life) 0 := by
  rw [Progress.remaining, h.total, h.done]
  omega

/-- The strikes of a ticker become no fewer. -/
theorem ticks_mono (p : Progress) {d e : Duration} (le : d.nanos ≤ e.nanos) :
    { p with elapsed := d : Progress }.ticks ≤ { p with elapsed := e : Progress }.ticks := by
  simp only [Progress.ticks]
  split
  · exact Nat.div_le_div_right le
  · exact Nat.le_refl _

/-- To wait and to wait again is to wait once, for as long as both take. -/
theorem wait_add (report : Option Progress) (a b : Nat) :
    logged report [.wait ⟨a⟩, .wait ⟨b⟩] = logged report [.wait ⟨a + b⟩] ∧
      after report [.wait ⟨a⟩, .wait ⟨b⟩] = after report [.wait ⟨a + b⟩] := by
  cases report with
  | none => exact ⟨rfl, rfl⟩
  | some p =>
    let once : Progress := { p with elapsed := ⟨p.elapsed.nanos + a⟩ }
    let twice : Progress := { p with elapsed := ⟨p.elapsed.nanos + a + b⟩ }
    have first : p.ticks ≤ once.ticks := ticks_mono p (Nat.le_add_right p.elapsed.nanos a)
    have later : once.ticks ≤ twice.ticks := ticks_mono p (Nat.le_add_right _ b)
    have sum : (⟨p.elapsed.nanos + (a + b)⟩ : Duration) = ⟨p.elapsed.nanos + a + b⟩ :=
      congrArg Duration.mk (Nat.add_assoc _ a b).symm
    have cut : List.replicate (once.ticks - p.ticks) p.tickRecord ++
        List.replicate (twice.ticks - once.ticks) p.tickRecord =
        List.replicate (twice.ticks - p.ticks) p.tickRecord := by
      rw [List.replicate_append_replicate]
      congr 1
      omega
    refine ⟨?_, ?_⟩
    · simp only [logged, Step.run, Progress.wait, sum, List.append_nil]
      exact cut
    · simp only [after, List.foldl_cons, List.foldl_nil, Step.run, Progress.wait, sum]

/-- However a wait is cut, the same is logged and the same report is left. -/
theorem run_wait_add (report : Option Progress) (earlier later : List Step) (a b : Nat) :
    logged report (earlier ++ .wait ⟨a⟩ :: .wait ⟨b⟩ :: later) =
        logged report (earlier ++ .wait ⟨a + b⟩ :: later) ∧
      after report (earlier ++ .wait ⟨a⟩ :: .wait ⟨b⟩ :: later) =
        after report (earlier ++ .wait ⟨a + b⟩ :: later) := by
  obtain ⟨logs, left⟩ := wait_add (after report earlier) a b
  have cut : earlier ++ .wait ⟨a⟩ :: .wait ⟨b⟩ :: later =
      earlier ++ ([.wait ⟨a⟩, .wait ⟨b⟩] ++ later) := rfl
  have whole : earlier ++ .wait ⟨a + b⟩ :: later = earlier ++ ([.wait ⟨a + b⟩] ++ later) := rfl
  rw [cut, whole]
  simp only [logged_append _ earlier, after_append _ earlier, logged_append _ [_, _],
    logged_append _ [_], after_append _ [_, _], after_append _ [_], logs, left, and_self]

/-! ### Whole lives -/

/-- What a report that has just been started logs in a life, and what it leaves. -/
structure IsTimely (report : Option Progress) (total : Nat) (interval : Duration)
    (life : List Step) : Prop where
  /-- Whichever report there was before, the start of another one logs its first line. -/
  opened : ∀ previous, ((Step.start total interval).run previous).1 = [openingLine total]
  /-- The report says what the steps of its life say, and what remains is never negative. -/
  told : ∃ p, after report life = some p ∧ Tells total interval life p ∧
    (p.remaining : Int) = max ((total : Int) - finished life) 0
  /-- There is a strike for each whole interval that has passed. -/
  counted : ∀ earlier later, life = earlier ++ later →
    (logged report earlier).length = waited earlier / interval.nanos
  /-- A strike shows what was done and which file was current when its interval had passed. -/
  shown : ∀ earlier d later, life = earlier ++ .wait d :: later → ∀ k,
    waited earlier < (k + 1) * interval.nanos →
    (k + 1) * interval.nanos ≤ waited earlier + d.nanos →
    (logged report life)[k]? = some (tickLine (finished earlier) total (shown earlier))
  /-- It makes no difference how a wait is cut. -/
  recut : ∀ earlier a b later, life = earlier ++ .wait ⟨a + b⟩ :: later →
    logged report (earlier ++ .wait ⟨a⟩ :: .wait ⟨b⟩ :: later) = logged report life ∧
      after report (earlier ++ .wait ⟨a⟩ :: .wait ⟨b⟩ :: later) = after report life
  /-- At its end the report logs its last line, which says how far it has come; where it is dropped
  it logs none. -/
  closed : ∀ last : Step, last.ends = true →
    logged (after report life) [last] = lastLines (finished life) total last
  /-- Nothing is logged once the report has ended, until another one is started. -/
  silent : ∀ last : Step, last.ends = true → ∀ rest, (∀ step ∈ rest, step.starts = false) →
    logged (after report (life ++ [last])) rest = [] ∧
      after report (life ++ last :: rest) = none

theorem timely (before : List Step) (total : Nat) (interval : Duration) {life : List Step}
    (living : ∀ step ∈ life, step.continues) (tellable : IsTellable interval (waited life)) :
    IsTimely (after none (before ++ [.start total interval])) total interval life := by
  have started : after none (before ++ [.start total interval]) =
      some (Progress.start .start total interval) := by
    rw [after_append]
    rfl
  rw [started]
  have told : Tells total interval [] (Progress.start .start total interval) := tells_start
  obtain ⟨p, reached, tells⟩ := told.run living
  refine ⟨fun previous => ?_, ⟨p, reached, tells, tells.remaining⟩, ?_, ?_, ?_, ?_, ?_⟩
  · rw [Step.run, startRecord_eq]
    rfl
  · rintro earlier later rfl
    rw [told.length_logged (fun step member => living step (List.mem_append_left _ member))
      (tellable.mono (waited_le_append _ _)), List.nil_append, waited_nil, Nat.zero_div,
      Nat.sub_zero]
  · rintro earlier d later rfl k yet passed
    exact told.getElem?_logged living tellable yet passed
  · rintro earlier a b later rfl
    exact run_wait_add _ earlier later a b
  · intro last ends
    rw [reached, logged, logged, List.append_nil]
    exact tells.closes ends
  · intro last ends rest unstarted
    have ended : after (some (Progress.start .start total interval)) (life ++ [last]) = none := by
      rw [after_append]
      exact after_ends ends _
    rw [List.append_cons life last rest, after_append _ (life ++ [last]), ended]
    exact silent unstarted

end LintBridge.Progress
