import LintBridge.Proofs.Cancellation.Acts
import LintBridge.Proofs.Shared

/-! Guarded calls under one signal, whose moves come in any order.  What has become of a call is
what its own acts make of it, first as a call that is not aborted and then, from the first
cancellation on, as one that was struck or was not. -/

namespace LintBridge.Cancellation

variable {α : Type} {moves : List (Move α)} {g g' : Guards α} {m : Move α} {c : Nat}
  {call : Call α} {stage later : Stage α} {acts : List (Act α)}

/-! ### What has become of a call -/

/-- What has become of the call at a place. -/
inductive Lives (moves : List (Move α)) (c : Nat) : Call α → Prop
  | admitted {h : Nat} {stage : Stage α} (midway : Stage α)
      (early : c < starts (beforeCancel moves)) (inside : h ≤ clones moves)
      (before : Stage.waiting.after? false (lifeOf c (beforeCancel moves)) = some midway)
      (after : midway.after? ((signalAfter moves).isAborted c) (lifeOf c (fromCancel moves)) =
        some stage) :
      Lives moves c ⟨h, some c, stage⟩
  | refused {h : Nat} (late : starts (beforeCancel moves) ≤ c) (inside : h ≤ clones moves)
      (idle : lifeOf c moves = []) :
      Lives moves c ⟨h, none, .returned none⟩

theorem lifeOf_concat (m : Move α) :
    lifeOf c (moves ++ [m]) = lifeOf c moves ++ (m.actOf? c).toList := by
  rw [lifeOf_append, lifeOf_singleton]

theorem lifeOf_beforeCancel_concat (other : m.actOf? c = none) :
    lifeOf c (beforeCancel (moves ++ [m])) = lifeOf c (beforeCancel moves) := by
  cases done : isCancelled moves with
  | true => rw [beforeCancel_append done]
  | false =>
    rw [beforeCancel_of_calm done]
    cases isCancel : m.isCancel with
    | true => rw [beforeCancel_concat_cancel done isCancel]
    | false =>
      have calm : isCancelled (moves ++ [m]) = false := by simp [done, isCancel]
      rw [beforeCancel_of_calm calm, lifeOf_concat, other]
      exact List.append_nil _

theorem lifeOf_fromCancel_concat (other : m.actOf? c = none) :
    lifeOf c (fromCancel (moves ++ [m])) = lifeOf c (fromCancel moves) := by
  have whole := lifeOf_split c (moves ++ [m])
  have same : lifeOf c (moves ++ [m]) = lifeOf c moves := by simp [lifeOf_concat, other]
  rw [lifeOf_beforeCancel_concat other, same, ← lifeOf_split c moves] at whole
  exact List.append_cancel_left whole

/-- Before a cancellation there are no acts after one, so it does not matter yet who is aborted. -/
theorem after?_signalAfter_concat (midway : Stage α) :
    midway.after? ((signalAfter (moves ++ [m])).isAborted c) (lifeOf c (fromCancel moves)) =
      midway.after? ((signalAfter moves).isAborted c) (lifeOf c (fromCancel moves)) := by
  cases done : isCancelled moves with
  | true => rw [isAborted_concat moves (.inl done)]
  | false =>
    rw [fromCancel_of_calm done]
    rfl

/-- A move of another leaves a call where it is. -/
theorem Lives.other (lives : Lives moves c call) (present : c < starts moves)
    (other : m.actOf? c = none) : Lives (moves ++ [m]) c call := by
  cases lives with
  | @admitted h stage midway early inside before after =>
    refine .admitted midway (early.trans_le (starts_beforeCancel_concat moves m))
      (inside.trans (clones_le_concat moves m)) ?_ ?_
    · rwa [lifeOf_beforeCancel_concat other]
    · rwa [lifeOf_fromCancel_concat other, after?_signalAfter_concat]
  | refused late inside idle =>
    cases done : isCancelled moves with
    | true =>
      have idle : lifeOf c (moves ++ [m]) = [] := by simp [lifeOf_concat, idle, other]
      refine .refused ?_ (inside.trans (clones_le_concat moves m)) idle
      rwa [beforeCancel_append done]
    | false =>
      rw [beforeCancel_of_calm done] at late
      omega

/-- An act of the call itself takes it on. -/
theorem Lives.own {a : Act α} (lives : Lives moves c call)
    (next : call.stage.next? (call.number.any (signalAfter moves).isAborted) a = some later) :
    Lives (moves ++ [.act c a]) c { call with stage := later } := by
  have own : (Move.act c a).actOf? c = some a := by simp [Move.actOf?]
  cases lives with
  | refused => cases a <;> simp [Stage.next?] at next
  | @admitted h stage midway early inside before after =>
    cases done : isCancelled moves with
    | true =>
      refine .admitted midway ?_ (inside.trans (clones_le_concat moves _)) ?_ ?_
      · rwa [beforeCancel_append done]
      · rwa [beforeCancel_append done]
      · rw [fromCancel_append done, isAborted_concat moves (.inl done), lifeOf_concat, own]
        exact after?_concat.mpr ⟨stage, after, by simpa using next⟩
    | false =>
      have calm : isCancelled (moves ++ [Move.act c a]) = false := by simp [done, Move.isCancel]
      rw [fromCancel_of_calm done] at after
      obtain rfl := after?_nil.mp after
      rw [beforeCancel_of_calm done] at early before
      refine .admitted later ?_ (inside.trans (clones_le_concat moves _)) ?_ ?_
      · rw [beforeCancel_of_calm calm, starts_concat]
        omega
      · rw [beforeCancel_of_calm calm, lifeOf_concat, own]
        refine after?_concat.mpr ⟨midway, before, ?_⟩
        simpa [not_isAborted_of_calm done] using next
      · rw [fromCancel_of_calm calm]
        exact after?_nil.mpr rfl

theorem lives_entering {h : Nat} (inside : h ≤ clones moves)
    (unborn : lifeOf (starts moves) moves = []) :
    Lives (moves ++ [.start h]) (starts moves) (.entering h (signalAfter moves).begin?.1) := by
  have idle : lifeOf (starts moves) (moves ++ [.start h]) = [] := by
    simp [lifeOf_concat, unborn, Move.actOf?]
  have inside := inside.trans (clones_le_concat moves (.start h))
  cases done : isCancelled moves with
  | true =>
    have gone : (signalAfter moves).cancelled = true := by rw [cancelled_signalAfter, done]
    have late : starts (beforeCancel (moves ++ [.start h])) ≤ starts moves := by
      rw [beforeCancel_append done]
      exact starts_beforeCancel_le moves
    simpa [begin?, gone, Call.entering] using Lives.refused late inside idle
  | false =>
    have still : (signalAfter moves).cancelled = false := by rw [cancelled_signalAfter, done]
    have calm : isCancelled (moves ++ [Move.start h]) = false := by simp [done, Move.isCancel]
    have early : starts moves < starts (beforeCancel (moves ++ [.start h])) := by
      rw [beforeCancel_of_calm calm, starts_concat]
      simp [Move.isStart]
    have admitted :
        Lives (moves ++ [.start h]) (starts moves) ⟨h, some (starts moves), .waiting⟩ := by
      refine .admitted .waiting early inside ?_ ?_
      · rw [beforeCancel_of_calm calm, idle]
        exact after?_nil.mpr rfl
      · rw [fromCancel_of_calm calm]
        exact after?_nil.mpr rfl
    simpa [begin?, still, Call.entering, started_signalAfter done] using admitted

/-! ### Runs -/

/-- What a run has come to. -/
structure Follows (moves : List (Move α)) (g : Guards α) : Prop where
  signals : g.signals = .onOne (clones moves + 1) (signalAfter moves)
  length : g.calls.length = starts moves
  lives : ∀ c call, g.calls[c]? = some call → Lives moves c call
  unborn : ∀ c, starts moves ≤ c → lifeOf c moves = []

theorem follows_nil : Follows [] ({} : Guards α) where
  signals := Shared.single_eq_onOne _
  length := rfl
  lives := by simp
  unborn := fun _ _ => rfl

theorem Follows.present (follows : Follows moves g) (at_ : g.calls[c]? = some call) :
    c < starts moves := by
  rw [← follows.length]
  exact (List.getElem?_eq_some_iff.mp at_).1

theorem Follows.present_of_mem {a : Act α} (follows : Follows moves g) (mem : .act c a ∈ moves) :
    c < starts moves := by
  by_contra absent
  have none := follows.unborn c (by omega)
  simpa [none] using mem_lifeOf.mpr mem

theorem Follows.exists_call (follows : Follows moves g) (present : c < starts moves) :
    ∃ call, g.calls[c]? = some call ∧ Lives moves c call := by
  rw [← follows.length] at present
  have at_ : g.calls[c]? = some g.calls[c] := List.getElem?_eq_getElem present
  exact ⟨_, at_, follows.lives c _ at_⟩

/-- Moves that are no call's acts leave the calls as they are. -/
theorem Follows.aside (follows : Follows moves g) (others : ∀ c, m.actOf? c = none)
    (notStart : m.isStart = false) {signals : Shared Cancellation}
    (shown : signals = .onOne (clones (moves ++ [m]) + 1) (signalAfter (moves ++ [m]))) :
    Follows (moves ++ [m]) { g with signals } where
  signals := shown
  length := by simpa [notStart] using follows.length
  lives c call at_ := (follows.lives c call at_).other (follows.present at_) (others c)
  unborn c absent := by
    rw [lifeOf_concat, others c, follows.unborn c (by simpa [notStart] using absent)]
    rfl

/-- A call that is started comes behind the others and has not acted yet. -/
theorem Follows.start (follows : Follows moves g) {h : Nat} (inside : h < clones moves + 1) :
    Follows (moves ++ [.start h])
      { signals := g.signals.modify h fun s => s.begin?.2
        calls := g.calls ++ [.entering h (signalAfter moves).begin?.1] } where
  signals := by simp [follows.signals, Shared.modify_onOne inside, Move.isClone, Move.effect]
  length := by simp [follows.length, Move.isStart]
  lives c call at_ := by
    rw [List.getElem?_append] at at_
    split at at_
    next before => exact (follows.lives c call at_).other (follows.present at_) rfl
    next after =>
      obtain ⟨short, value⟩ := List.getElem?_eq_some_iff.mp at_
      simp only [List.length_singleton] at short
      obtain rfl : c = starts moves := by
        rw [← follows.length]
        omega
      obtain rfl : Call.entering h (signalAfter moves).begin?.1 = call := by simpa using value
      exact lives_entering (by omega) (follows.unborn _ le_rfl)
  unborn c absent := by
    have absent : starts moves ≤ c := by
      simp [Move.isStart] at absent
      omega
    rw [lifeOf_concat, follows.unborn c absent]
    rfl

/-- An act takes its own call further and leaves the others as they are. -/
theorem Follows.act (follows : Follows moves g) {a : Act α} (at_ : g.calls[c]? = some call)
    (inside : call.handle < clones moves + 1)
    (next : call.stage.next? (call.number.any (signalAfter moves).isAborted) a = some later) :
    Follows (moves ++ [.act c a])
      { signals := g.signals.modify call.handle a.effect
        calls := g.calls.set c { call with stage := later } } where
  signals := by simp [follows.signals, Shared.modify_onOne inside, Move.isClone, Move.effect]
  length := by simp [follows.length, Move.isStart]
  lives d other at' := by
    rw [List.getElem?_set] at at'
    split at at'
    next same =>
      subst d
      rw [if_pos (by rw [follows.length]; exact follows.present at_)] at at'
      obtain rfl := Option.some_inj.mp at'
      exact (follows.lives c call at_).own next
    next differs =>
      refine (follows.lives d other at').other (follows.present at') ?_
      simp [Move.actOf?, differs]
  unborn d absent := by
    have absent : starts moves ≤ d := by simpa [Move.isStart] using absent
    have present := follows.present at_
    have differs : c ≠ d := by omega
    rw [lifeOf_concat, follows.unborn d absent]
    simp [Move.actOf?, differs]

theorem Follows.step (follows : Follows moves g) (step : g.step? m = some g') :
    Follows (moves ++ [m]) g' := by
  cases m with
  | clone h =>
    obtain ⟨s, shown, rfl⟩ := Option.map_eq_some_iff.mp step
    rw [follows.signals, Shared.get?_onOne_eq_some] at shown
    refine follows.aside (fun _ => rfl) rfl ?_
    rw [follows.signals, Shared.clone_onOne shown.1]
    simp [Move.isClone, Move.effect]
  | cancel h =>
    obtain ⟨s, shown, rfl⟩ := Option.map_eq_some_iff.mp step
    rw [follows.signals, Shared.get?_onOne_eq_some] at shown
    refine follows.aside (fun _ => rfl) rfl ?_
    rw [follows.signals, Shared.modify_onOne shown.1]
    simp [Move.isClone, Move.effect]
  | start h =>
    obtain ⟨s, shown, rfl⟩ := Option.map_eq_some_iff.mp step
    rw [follows.signals, Shared.get?_onOne_eq_some] at shown
    obtain ⟨inside, rfl⟩ := shown
    exact follows.start inside
  | act d a =>
    simp only [Guards.step?, Option.bind_eq_bind, Option.bind_eq_some_iff] at step
    obtain ⟨call, at_, s, shown, later, next, made⟩ := step
    rw [follows.signals, Shared.get?_onOne_eq_some] at shown
    obtain ⟨inside, rfl⟩ := shown
    obtain rfl := Option.some_inj.mp made
    exact follows.act at_ inside next

theorem run?_append {xs ys : List (Move α)} : g.run? (xs ++ ys) = some g' ↔
    ∃ mid, g.run? xs = some mid ∧ mid.run? ys = some g' := by
  simp [Guards.run?, List.foldlM_append, Option.bind_eq_some_iff]

theorem run?_singleton : g.run? [m] = g.step? m := by
  simp [Guards.run?]

theorem follows_run (ran : Guards.run? {} moves = some g) : Follows moves g := by
  induction moves using List.reverseRecOn generalizing g with
  | nil =>
    obtain rfl : ({} : Guards α) = g := by simpa [Guards.run?] using ran
    exact follows_nil
  | append_singleton moves m ih =>
    obtain ⟨mid, earlier, last⟩ := run?_append.mp ran
    rw [run?_singleton] at last
    exact (ih earlier).step last

end LintBridge.Cancellation
