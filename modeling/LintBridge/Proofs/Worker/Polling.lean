import LintBridge.Worker.Listener
import Mathlib.Algebra.Order.Floor.Div
import Mathlib.Data.List.Chain

/-! Waiting for a listener, attempt by attempt.  `Polls` says how a wait goes on from one attempt,
with a case for each way in which the attempt can end the wait or lead to the next one, and what a
whole wait keeps to is an induction on it.  A wait is over by its deadline, and it finds a listener
just if one of its attempts does by then; `wait_keeps` says how the attempts are spread over the
time, how many there are, and which listeners are sure to be found. -/

namespace LintBridge.Worker.Listener

/-- An attempt that was made at a time has not ended yet when the time is up. -/
def Attempt.Outlasts (timeout now : Duration) : Attempt → Prop
  | .succeeds after | .fails after => timeout.nanos < now.nanos + after.nanos
  | .hangs => True

/-- How a wait goes on from an attempt, by its number and the time at which it is made. -/
inductive Polls (pause timeout : Duration) (attempt : Nat → Duration → Attempt) :
    Nat → Duration → Wait → Prop
  | accepted {made : Nat} {now after : Duration} (outcome : attempt made now = .succeeds after)
      (early : now.nanos + after.nanos ≤ timeout.nanos) :
      Polls pause timeout attempt made now ⟨true, now.plus after, [now]⟩
  /-- The time is up during the attempt. -/
  | expired {made : Nat} {now : Duration} (outlasts : (attempt made now).Outlasts timeout now) :
      Polls pause timeout attempt made now ⟨false, timeout, [now]⟩
  /-- There is no time for another attempt. -/
  | spent {made : Nat} {now after : Duration} (outcome : attempt made now = .fails after)
      (early : now.nanos + after.nanos ≤ timeout.nanos)
      (close : timeout.nanos ≤ now.nanos + after.nanos + pause.nanos) :
      Polls pause timeout attempt made now ⟨false, now.plus after, [now]⟩
  | again {made : Nat} {now after : Duration} {w : Wait}
      (outcome : attempt made now = .fails after)
      (room : now.nanos + after.nanos + pause.nanos < timeout.nanos)
      (rest : Polls pause timeout attempt (made + 1) ((now.plus after).plus pause) w) :
      Polls pause timeout attempt made now { w with attempts := now :: w.attempts }

theorem polls_waitFrom {pause : Duration} (positive : 0 < pause.nanos) (timeout : Duration)
    (attempt : Nat → Duration → Attempt) (made : Nat) (now : Duration) :
    Polls pause timeout attempt made now
      (waitFrom pause positive timeout attempt made now) := by
  induction made, now using waitFrom.induct pause positive timeout attempt with
  | case1 made now outcome =>
    rw [waitFrom, outcome]
    exact .expired (by rw [outcome]; trivial)
  | case2 made now after outcome early =>
    rw [waitFrom]
    simp only [outcome, if_pos early]
    exact .accepted outcome early
  | case3 made now after outcome late =>
    rw [waitFrom]
    simp only [outcome, if_neg late]
    exact .expired (by rw [outcome]; exact Nat.lt_of_not_le late)
  | case4 made now after outcome late =>
    rw [waitFrom]
    simp only [outcome, if_pos late]
    exact .expired (by rw [outcome]; exact late)
  | case5 made now after outcome early close =>
    rw [waitFrom]
    simp only [outcome, if_neg early, if_pos close]
    exact .spent outcome (Nat.le_of_not_lt early) close
  | case6 made now after outcome early room ih =>
    rw [waitFrom]
    simp only [outcome, if_neg early, if_neg room]
    exact .again outcome (Nat.lt_of_not_le room) ih

namespace Polls

variable {pause timeout : Duration} {attempt : Nat → Duration → Attempt} {made : Nat}
  {now : Duration} {w : Wait}

/-! ### How a wait ends -/

theorem ended_le (h : Polls pause timeout attempt made now w)
    (begun : now.nanos ≤ timeout.nanos) : w.ended.nanos ≤ timeout.nanos := by
  induction h with
  | accepted outcome early => exact early
  | expired outlasts => exact Nat.le_refl _
  | spent outcome early close => exact early
  | again outcome room rest ih => exact ih (Nat.le_of_lt room)

theorem ended_ge (h : Polls pause timeout attempt made now w) (missed : w.found = false) :
    timeout.nanos ≤ w.ended.nanos + pause.nanos := by
  induction h with
  | accepted outcome early => cases missed
  | expired outlasts => exact Nat.le_add_right _ _
  | spent outcome early close => exact close
  | again outcome room rest ih => exact ih missed

/-- A listener is found by the attempt that succeeds in time, and there is none otherwise. -/
theorem found_iff (h : Polls pause timeout attempt made now w) :
    w.found = true ↔ ∃ n t after, w.attempts[n]? = some t ∧
      attempt (made + n) t = .succeeds after ∧ t.nanos + after.nanos ≤ timeout.nanos := by
  -- a wait that ends with its first attempt has no other one
  have alone : ∀ {made now}, (∃ n t after, [now][n]? = some t ∧
      attempt (made + n) t = .succeeds after ∧ t.nanos + after.nanos ≤ timeout.nanos) ↔
      ∃ after, attempt made now = .succeeds after ∧ now.nanos + after.nanos ≤ timeout.nanos := by
    intro made now
    constructor
    · rintro ⟨_ | n, t, after, first, success⟩
      · obtain rfl := Option.some.inj first
        exact ⟨after, success⟩
      · cases first
    · rintro ⟨after, success⟩
      exact ⟨0, now, after, rfl, success⟩
  induction h with
  | @accepted made now after outcome early =>
    rw [alone]
    exact ⟨fun _ => ⟨after, outcome, early⟩, fun _ => rfl⟩
  | @expired made now outlasts =>
    rw [alone]
    refine ⟨nofun, fun ⟨after, outcome, early⟩ => ?_⟩
    rw [outcome] at outlasts
    exact absurd outlasts (Nat.not_lt.mpr early)
  | @spent made now after outcome early close =>
    rw [alone]
    refine ⟨nofun, fun ⟨after', outcome', _⟩ => ?_⟩
    cases outcome.symm.trans outcome'
  | @again made now after w outcome room rest ih =>
    refine ih.trans ⟨?_, ?_⟩
    · rintro ⟨n, t, after', later, success, early⟩
      exact ⟨n + 1, t, after', later, by rwa [Nat.add_comm n, ← Nat.add_assoc], early⟩
    · rintro ⟨_ | n, t, after', later, success, early⟩
      · obtain rfl := Option.some.inj later
        cases outcome.symm.trans success
      · exact ⟨n, t, after', later, by rwa [Nat.add_assoc, Nat.add_comm 1], early⟩

/-! ### The attempts -/

theorem head?_attempts (h : Polls pause timeout attempt made now w) :
    w.attempts.head? = some now := by
  cases h <;> rfl

theorem isChain_attempts (h : Polls pause timeout attempt made now w) :
    List.IsChain (fun t t' => t.nanos + pause.nanos ≤ t'.nanos) w.attempts := by
  induction h with
  | @again made now after w outcome room rest ih =>
    refine List.isChain_cons.mpr ⟨fun t next => ?_, ih⟩
    rw [rest.head?_attempts, Option.mem_some_iff] at next
    rw [← next]
    exact Nat.add_le_add_right (Nat.le_add_right _ _) _
  | _ => exact List.isChain_singleton _

theorem lt_of_mem_tail (h : Polls pause timeout attempt made now w) :
    ∀ t ∈ w.attempts.tail, t.nanos < timeout.nanos := by
  induction h with
  | @again made now after w outcome room rest ih =>
    intro t later
    rw [← List.cons_head?_tail rest.head?_attempts, List.tail_cons] at later
    obtain rfl | later := List.mem_cons.mp later
    · exact room
    · exact ih t later
  | _ => exact fun t later => absurd later List.not_mem_nil

/-- After the first attempt there is time for a pause before each other one. -/
theorem mul_length_lt (h : Polls pause timeout attempt made now w) :
    w.attempts.length = 1 ∨
      now.nanos + pause.nanos * (w.attempts.length - 1) < timeout.nanos := by
  induction h with
  | @again made now after w outcome room rest ih =>
    right
    rw [List.length_cons, Nat.add_sub_cancel]
    have sooner : now.nanos + after.nanos + pause.nanos +
        pause.nanos * (w.attempts.length - 1) < timeout.nanos := by
      rcases ih with last | more
      · rw [last]
        exact room
      · exact more
    have some : w.attempts.length = (w.attempts.length - 1) + 1 := by
      rw [← List.cons_head?_tail rest.head?_attempts]
      rfl
    rw [some, Nat.mul_succ]
    omega
  | _ => exact .inl rfl

theorem length_le (h : Polls pause timeout attempt made now w) (positive : 0 < pause.nanos) :
    w.attempts.length ≤ max 1 (timeout.nanos ⌈/⌉ pause.nanos) := by
  rcases h.mul_length_lt with last | more
  · exact last ▸ Nat.le_max_left _ _
  · refine Nat.le_trans ?_ (Nat.le_max_right _ _)
    by_contra fewer
    have enough : timeout.nanos ⌈/⌉ pause.nanos ≤ w.attempts.length - 1 := by omega
    have covered := (ceilDiv_le_iff_le_mul positive).mp enough
    omega

/-! ### Listeners that stay -/

/-- A listener that is there by a time that leaves a pause until the deadline is found, if attempts
before it fail at once. -/
theorem found_of_listener (h : Polls pause timeout attempt made now w) {since : Duration}
    (soon : since.nanos + pause.nanos ≤ timeout.nanos) (begun : now.nanos ≤ timeout.nanos)
    (listens : ∀ n t, attempt n t = attemptsOf (some since) n t) : w.found = true := by
  have fails : ∀ {n t after}, attempt n t = .fails after →
      t.nanos < since.nanos ∧ after = ⟨0⟩ := by
    intro n t after outcome
    rw [listens, attemptsOf] at outcome
    split at outcome
    · cases outcome
    next before =>
      cases outcome
      exact ⟨Nat.lt_of_not_le before, rfl⟩
  induction h with
  | accepted outcome early => rfl
  | @expired made now outlasts =>
    rw [listens, attemptsOf] at outlasts
    split at outlasts <;> exact absurd outlasts (Nat.not_lt.mpr begun)
  | spent outcome early close =>
    obtain ⟨before, rfl⟩ := fails outcome
    rw [Nat.add_zero] at close
    omega
  | again outcome room rest ih => exact ih (Nat.le_of_lt room)

end Polls

/-- A wait is over by its deadline.  It finds a listener just if one of the attempts that it makes
succeeds by then, and if it finds none it does not end more than a pause before the deadline; so a
listener that stays from a pause before the deadline is found, if attempts before it fail at once.
Attempts are a pause apart at least, only the first one can be made when the time is up, and there
are no more of them than pauses, counting a part of one as a whole, or just one. -/
theorem wait_keeps (timeout : Duration) (attempt : Nat → Duration → Attempt) :
    let w := wait timeout attempt
    w.ended.nanos ≤ timeout.nanos ∧
    (w.found = true ↔ ∃ n t after, w.attempts[n]? = some t ∧ attempt n t = .succeeds after ∧
      t.nanos + after.nanos ≤ timeout.nanos) ∧
    (w.found = false → timeout.nanos ≤ w.ended.nanos + pause.nanos) ∧
    (∀ since : Duration, since.nanos + pause.nanos ≤ timeout.nanos →
      (∀ n t, attempt n t = attemptsOf (some since) n t) → w.found = true) ∧
    w.attempts.head? = some ⟨0⟩ ∧
    List.IsChain (fun t t' => t.nanos + pause.nanos ≤ t'.nanos) w.attempts ∧
    (∀ t ∈ w.attempts.tail, t.nanos < timeout.nanos) ∧
    w.attempts.length ≤ max 1 (timeout.nanos ⌈/⌉ pause.nanos) := by
  intro w
  have polls : Polls pause timeout attempt 0 ⟨0⟩ w := polls_waitFrom pause_pos timeout attempt 0 ⟨0⟩
  have found := polls.found_iff
  simp only [Nat.zero_add] at found
  exact ⟨polls.ended_le (Nat.zero_le _), found, polls.ended_ge,
    fun since soon listens => polls.found_of_listener soon (Nat.zero_le _) listens,
    polls.head?_attempts, polls.isChain_attempts, polls.lt_of_mem_tail,
    polls.length_le pause_pos⟩

/-- A listener that comes up just one pause before the deadline is found by the last attempt. -/
theorem wait_keeps_lastAttempt :
    let w := wait (.ofMillis 80) (attemptsOf (some (.ofMillis 60)))
    w.found = true ∧ w.ended.nanos ≤ 80000000 ∧ w.attempts.length ≤ 4 := by
  intro w
  obtain ⟨ended, -, -, found, -, -, -, few⟩ :=
    wait_keeps (.ofMillis 80) (attemptsOf (some (.ofMillis 60)))
  exact ⟨found (.ofMillis 60) (by decide) fun _ _ => rfl, ended, few⟩

end LintBridge.Worker.Listener
