import LintBridge.Cancellation
import Mathlib.Data.List.Basic
import Mathlib.Data.List.Induction
import Mathlib.Data.List.TakeWhile

/-! The signal that a list of moves leaves behind, read off the list: whether it is cancelled, which
call it tracks, and which it has aborted. A move has the same effect on the signal through
whichever handle it is made. -/

namespace LintBridge.Cancellation

variable {α : Type} {moves : List (Move α)} {m : Move α} {s : Cancellation} {c : Nat}

/-! ### Moves of one kind -/

namespace Move

def isClone : Move α → Bool
  | clone _ => true
  | cancel _ | start _ | act .. => false

def isCancel : Move α → Bool
  | cancel _ => true
  | clone _ | start _ | act .. => false

def isStart : Move α → Bool
  | start _ => true
  | clone _ | cancel _ | act .. => false

def isLeave : Move α → Bool
  | act _ .leave => true
  | act _ .poll | act _ (.ready _) | act _ .pending | clone _ | cancel _ | start _ => false

def effect : Move α → Cancellation → Cancellation
  | clone _ => id
  | cancel _ => Cancellation.cancel
  | start _ => fun s => s.begin?.2
  | act _ a => a.effect

end Move

def clones (moves : List (Move α)) : Nat := moves.countP Move.isClone

def starts (moves : List (Move α)) : Nat := moves.countP Move.isStart

def isCancelled (moves : List (Move α)) : Bool := moves.any Move.isCancel

/-- The moves up to the first cancellation. -/
def beforeCancel (moves : List (Move α)) : List (Move α) := moves.takeWhile fun m => !m.isCancel

def fromCancel (moves : List (Move α)) : List (Move α) := moves.dropWhile fun m => !m.isCancel

def signalAfter (moves : List (Move α)) : Cancellation := moves.foldl (fun s m => m.effect s) {}

@[simp] theorem clones_concat (moves : List (Move α)) (m : Move α) :
    clones (moves ++ [m]) = clones moves + if m.isClone then 1 else 0 := by
  simp [clones, List.countP_append, List.countP_singleton]

theorem clones_le_concat (moves : List (Move α)) (m : Move α) :
    clones moves ≤ clones (moves ++ [m]) := by
  simp

@[simp] theorem starts_concat (moves : List (Move α)) (m : Move α) :
    starts (moves ++ [m]) = starts moves + if m.isStart then 1 else 0 := by
  simp [starts, List.countP_append, List.countP_singleton]

theorem starts_append (before after : List (Move α)) :
    starts (before ++ after) = starts before + starts after :=
  List.countP_append

theorem starts_append_start (before : List (Move α)) (h : Nat) (after : List (Move α)) :
    starts (before ++ .start h :: after) = starts before + 1 + starts after := by
  have first : starts (.start h :: after) = starts after + 1 := List.countP_cons_of_pos rfl
  rw [starts_append, first]
  omega

@[simp] theorem isCancelled_concat (moves : List (Move α)) (m : Move α) :
    isCancelled (moves ++ [m]) = (isCancelled moves || m.isCancel) := by
  simp [isCancelled]

@[simp] theorem signalAfter_concat (moves : List (Move α)) (m : Move α) :
    signalAfter (moves ++ [m]) = m.effect (signalAfter moves) := by
  simp [signalAfter]

theorem beforeCancel_append_fromCancel (moves : List (Move α)) :
    beforeCancel moves ++ fromCancel moves = moves :=
  List.takeWhile_append_dropWhile

/-! ### The part before a cancellation -/

theorem not_isCancel_of_mem (calm : isCancelled moves = false) {m : Move α} (h : m ∈ moves) :
    (!m.isCancel) = true := by
  simpa using List.any_eq_false.mp calm m h

theorem beforeCancel_of_calm (calm : isCancelled moves = false) : beforeCancel moves = moves :=
  List.takeWhile_eq_self_iff.mpr fun _ h => not_isCancel_of_mem calm h

theorem fromCancel_of_calm (calm : isCancelled moves = false) : fromCancel moves = [] :=
  List.dropWhile_eq_nil_iff.mpr fun _ h => not_isCancel_of_mem calm h

theorem beforeCancel_concat_cancel (calm : isCancelled moves = false) (h : m.isCancel = true) :
    beforeCancel (moves ++ [m]) = moves := by
  rw [beforeCancel, List.takeWhile_append_of_pos fun _ h => not_isCancel_of_mem calm h]
  simp [h]

theorem beforeCancel_append (done : isCancelled moves = true) (rest : List (Move α)) :
    beforeCancel (moves ++ rest) = beforeCancel moves := by
  obtain ⟨m, mem, isCancel⟩ := List.any_eq_true.mp done
  have short : (moves.takeWhile fun m => !m.isCancel).length ≠ moves.length := by
    intro same
    have whole := (List.takeWhile_prefix fun m : Move α => !m.isCancel).eq_of_length same
    have := List.takeWhile_eq_self_iff.mp whole m mem
    simp [isCancel] at this
  rw [beforeCancel, List.takeWhile_append, if_neg short, beforeCancel]

theorem fromCancel_append (done : isCancelled moves = true) (rest : List (Move α)) :
    fromCancel (moves ++ rest) = fromCancel moves ++ rest := by
  have whole := beforeCancel_append_fromCancel (moves ++ rest)
  rw [beforeCancel_append done] at whole
  have cut : beforeCancel moves ++ (fromCancel moves ++ rest) = moves ++ rest := by
    rw [← List.append_assoc, beforeCancel_append_fromCancel]
  exact List.append_cancel_left (whole.trans cut.symm)

theorem isCancelled_beforeCancel (moves : List (Move α)) :
    isCancelled (beforeCancel moves) = false := by
  refine List.any_eq_false.mpr fun m h => ?_
  have := List.mem_takeWhile_imp h
  simpa using this

theorem starts_beforeCancel_le (moves : List (Move α)) :
    starts (beforeCancel moves) ≤ starts moves :=
  (List.takeWhile_sublist _).countP_le

theorem starts_beforeCancel_concat (moves : List (Move α)) (m : Move α) :
    starts (beforeCancel moves) ≤ starts (beforeCancel (moves ++ [m])) := by
  have longer : beforeCancel moves <+: beforeCancel (moves ++ [m]) := by
    cases done : isCancelled moves with
    | true => exact ⟨[], by rw [List.append_nil, beforeCancel_append done]⟩
    | false =>
      rw [beforeCancel_of_calm done, beforeCancel,
        List.takeWhile_append_of_pos fun _ mem => not_isCancel_of_mem done mem]
      exact List.prefix_append _ _
  exact longer.sublist.countP_le

/-! ### The call in flight -/

/-- The call at a place is in flight: it was the last to start, since then none has left, and there
was no cancellation. -/
def InFlight (moves : List (Move α)) (c : Nat) : Prop :=
  isCancelled moves = false ∧ ∃ before h since, moves = before ++ .start h :: since ∧
    starts before = c ∧ ∀ m ∈ since, m.isStart = false ∧ m.isLeave = false

theorem not_inFlight_nil : ¬ InFlight ([] : List (Move α)) c := by
  rintro ⟨-, before, h, since, cut, -⟩
  simp at cut

theorem inFlight_start {h : Nat} :
    InFlight (moves ++ [.start h]) c ↔ isCancelled moves = false ∧ c = starts moves := by
  constructor
  · rintro ⟨calm, before, h', since, cut, rfl, quiet⟩
    refine ⟨by simpa [Move.isCancel] using calm, ?_⟩
    obtain rfl | ⟨since, m, rfl⟩ := List.eq_nil_or_concat' since
    · rw [(List.append_inj' cut rfl).1]
    · have last : moves ++ [.start h] = (before ++ .start h' :: since) ++ [m] := by simpa using cut
      obtain rfl : .start h = m := by simpa using (List.append_inj' last rfl).2
      simpa [Move.isStart] using (quiet (.start h) (by simp)).1
  · rintro ⟨calm, rfl⟩
    exact ⟨by simpa [Move.isCancel] using calm, moves, h, [], rfl, rfl, by simp⟩

theorem inFlight_concat (notStart : m.isStart = false) :
    InFlight (moves ++ [m]) c ↔ m.isCancel = false ∧ m.isLeave = false ∧ InFlight moves c := by
  constructor
  · rintro ⟨calm, before, h, since, cut, rfl, quiet⟩
    obtain ⟨calm, notCancel⟩ : isCancelled moves = false ∧ m.isCancel = false := by
      simpa using calm
    obtain rfl | ⟨since, last, rfl⟩ := List.eq_nil_or_concat' since
    · obtain rfl : m = .start h := by simpa using (List.append_inj' cut rfl).2
      simp [Move.isStart] at notStart
    · have cut : moves ++ [m] = (before ++ .start h :: since) ++ [last] := by simpa using cut
      obtain ⟨rfl, same⟩ := List.append_inj' cut rfl
      obtain rfl : m = last := by simpa using same
      have notLeave := (quiet m (by simp)).2
      exact ⟨notCancel, notLeave, calm, before, h, since, rfl, rfl,
        fun m mem => quiet m (by simp [mem])⟩
  · rintro ⟨notCancel, notLeave, calm, before, h, since, cut, rfl, quiet⟩
    refine ⟨by simp [calm, notCancel], before, h, since ++ [m], by simp [cut], rfl,
      fun m' mem => ?_⟩
    obtain mem | rfl : m' ∈ since ∨ m' = m := by simpa using mem
    · exact quiet m' mem
    · exact ⟨notStart, notLeave⟩

/-! ### What is left of the signal -/

theorem cancelled_effect (m : Move α) (s : Cancellation) :
    (m.effect s).cancelled = (s.cancelled || m.isCancel) := by
  cases m with
  | clone h => simp [Move.effect, Move.isCancel]
  | cancel h => simp [Move.effect, Move.isCancel, cancel]
  | start h => simp only [Move.effect, Move.isCancel, begin?]; split <;> simp_all
  | act c a => cases a <;> simp [Move.effect, Move.isCancel, Act.effect, finish]

theorem aborted_effect (notCancel : m.isCancel = false) :
    (m.effect s).aborted = s.aborted := by
  cases m with
  | clone h => rfl
  | cancel h => simp [Move.isCancel] at notCancel
  | start h => simp only [Move.effect, begin?]; split <;> rfl
  | act c a => cases a <;> rfl

/-- The signal does not forget that it was cancelled. -/
theorem cancelled_signalAfter (moves : List (Move α)) :
    (signalAfter moves).cancelled = isCancelled moves := by
  induction moves using List.reverseRecOn with
  | nil => rfl
  | append_singleton moves m ih => simp [cancelled_effect, ih]

theorem started_signalAfter (calm : isCancelled moves = false) :
    (signalAfter moves).started = starts moves := by
  induction moves using List.reverseRecOn with
  | nil => rfl
  | append_singleton moves m ih =>
    obtain ⟨calm, notCancel⟩ : isCancelled moves = false ∧ m.isCancel = false := by
      simpa using calm
    have still : (signalAfter moves).cancelled = false := by rw [cancelled_signalAfter, calm]
    rw [signalAfter_concat, starts_concat, ← ih calm]
    cases m with
    | clone h => rfl
    | cancel h => simp [Move.isCancel] at notCancel
    | start h => simp [Move.effect, Move.isStart, begin?, still]
    | act c a => cases a <;> rfl

theorem tracked_signalAfter (moves : List (Move α)) (c : Nat) :
    (signalAfter moves).tracked = some c ↔ InFlight moves c := by
  induction moves using List.reverseRecOn with
  | nil => simp [signalAfter, not_inFlight_nil]
  | append_singleton moves m ih =>
    rw [signalAfter_concat]
    cases m with
    | clone h =>
      rw [inFlight_concat rfl]
      simpa [Move.effect, Move.isCancel, Move.isLeave] using ih
    | cancel h =>
      rw [inFlight_concat rfl]
      simp [Move.effect, Move.isCancel, cancel]
    | start h =>
      rw [inFlight_start]
      cases calm : isCancelled moves with
      | false =>
        have still : (signalAfter moves).cancelled = false := by rw [cancelled_signalAfter, calm]
        simp [Move.effect, begin?, still, started_signalAfter calm, eq_comm]
      | true =>
        have gone : (signalAfter moves).cancelled = true := by rw [cancelled_signalAfter, calm]
        have untracked : ¬ InFlight moves c := fun inFlight => by simp [calm, InFlight] at inFlight
        simpa [Move.effect, begin?, gone] using mt ih.mp untracked
    | act d a =>
      cases a with
      | leave =>
        rw [inFlight_concat rfl]
        simp [Move.effect, Move.isLeave, Act.effect, finish]
      | poll | ready | pending =>
        rw [inFlight_concat rfl]
        simpa [Move.effect, Move.isCancel, Move.isLeave, Act.effect] using ih

theorem untracked_of_cancelled (done : isCancelled moves = true) :
    (signalAfter moves).tracked = none := by
  refine Option.eq_none_iff_forall_ne_some.mpr fun c tracked => ?_
  have calm := ((tracked_signalAfter moves c).mp tracked).1
  simp [done] at calm

/-- Only the first cancellation finds a call to abort. -/
theorem aborted_signalAfter (moves : List (Move α)) :
    (signalAfter moves).aborted =
      if isCancelled moves then (signalAfter (beforeCancel moves)).tracked.toList else [] := by
  induction moves using List.reverseRecOn with
  | nil => rfl
  | append_singleton moves m ih =>
    rw [signalAfter_concat, isCancelled_concat]
    cases done : isCancelled moves with
    | true =>
      rw [done] at ih
      rw [beforeCancel_append done, Bool.true_or, ← ih]
      cases isCancel : m.isCancel with
      | false => exact aborted_effect isCancel
      | true =>
        cases m <;> simp [Move.isCancel] at isCancel
        simp [Move.effect, cancel, untracked_of_cancelled done]
    | false =>
      rw [done] at ih
      cases isCancel : m.isCancel with
      | false => simpa [aborted_effect isCancel] using ih
      | true =>
        rw [beforeCancel_concat_cancel done isCancel]
        cases m <;> simp [Move.isCancel] at isCancel
        simpa [Move.effect, cancel] using ih

/-- The call at a place is struck: it was in flight when the signal was first cancelled. -/
def Struck (moves : List (Move α)) (c : Nat) : Prop :=
  isCancelled moves = true ∧ InFlight (beforeCancel moves) c

theorem isAborted_signalAfter (moves : List (Move α)) (c : Nat) :
    (signalAfter moves).isAborted c = true ↔ Struck moves c := by
  rw [isAborted, aborted_signalAfter, Struck, ← tracked_signalAfter]
  cases isCancelled moves <;> simp [eq_comm]

theorem length_aborted_signalAfter (moves : List (Move α)) :
    (signalAfter moves).aborted.length ≤ 1 := by
  rw [aborted_signalAfter]
  split
  · exact Option.length_toList_le
  · exact Nat.zero_le 1

theorem isAborted_concat (moves : List (Move α))
    (settled : isCancelled moves = true ∨ m.isCancel = false) (c : Nat) :
    (signalAfter (moves ++ [m])).isAborted c = (signalAfter moves).isAborted c := by
  rw [isAborted, isAborted]
  congr 1
  rcases settled with done | notCancel
  · have longer : isCancelled (moves ++ [m]) = true := by simp [done]
    rw [aborted_signalAfter, aborted_signalAfter, beforeCancel_append done, done, longer]
  · rw [signalAfter_concat, aborted_effect notCancel]

theorem not_isAborted_of_calm (calm : isCancelled moves = false) :
    (signalAfter moves).isAborted c = false := by
  simp [isAborted, aborted_signalAfter, calm]

end LintBridge.Cancellation
