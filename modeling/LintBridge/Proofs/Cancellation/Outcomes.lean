import LintBridge.Proofs.Cancellation.Guards

/-! What guarded calls return.  A call that starts after a cancellation is refused.  The others
return the value of their future, except for the one that was in flight at the first
cancellation: it returns none, unless its future was ready by then or becomes so in the poll that
is under way. -/

namespace LintBridge.Cancellation

variable {α : Type} {moves : List (Move α)} {g : Guards α} {c d : Nat} {stage later : Stage α}
  {acts : List (Act α)} {r : Option α}

def Refused (moves : List (Move α)) (c : Nat) : Prop :=
  starts (beforeCancel moves) ≤ c ∧ c < starts moves

/-- The poll that was under way at the first cancellation has given a value. -/
def ReadyAsCancelled (moves : List (Move α)) (c : Nat) (v : α) : Prop :=
  (lifeOf c (beforeCancel moves)).getLast? = some .poll ∧
    (lifeOf c (fromCancel moves)).head? = some (.ready v)

/-- The results that a call which was not refused can have. -/
inductive Yields (moves : List (Move α)) (c : Nat) : Option α → Prop
  | value (v : α) (own : ∀ w, .ready w ∈ lifeOf c moves ↔ w = v)
      (kept : Struck moves c →
        .ready v ∈ lifeOf c (beforeCancel moves) ∨ ReadyAsCancelled moves c v) :
      Yields moves c (some v)
  | cancelled (struck : Struck moves c) (never : ∀ v, .ready v ∉ lifeOf c moves) :
      Yields moves c none

theorem yields_of_not_struck {midway : Stage α} (spared : (signalAfter moves).isAborted c = false)
    (before : Stage.waiting.after? false (lifeOf c (beforeCancel moves)) = some midway)
    (after : midway.after? false (lifeOf c (fromCancel moves)) = some stage)
    (result : stage.result? = some r) : Yields moves c r := by
  have lived : Lived (lifeOf c moves) stage := by
    rw [← lifeOf_split]
    exact (lived_of_after? before).after after
  obtain ⟨v, rfl, own⟩ := lived.result result
  refine .value v own fun struck => ?_
  have aborted := (isAborted_signalAfter moves c).mpr struck
  simp [spared] at aborted

theorem yields_of_struck {midway : Stage α} (struck : Struck moves c)
    (before : Stage.waiting.after? false (lifeOf c (beforeCancel moves)) = some midway)
    (after : midway.after? true (lifeOf c (fromCancel moves)) = some stage)
    (result : stage.result? = some r) : Yields moves c r := by
  have lived := lived_of_after? before
  have mem (a : Act α) : a ∈ lifeOf c moves ↔
      a ∈ lifeOf c (beforeCancel moves) ∨ a ∈ lifeOf c (fromCancel moves) := by
    rw [← lifeOf_split, List.mem_append]
  cases midway with
  | waiting =>
    have notBefore := ready_not_mem_of_idle lived
    obtain ⟨rfl, notAfter⟩ := after?_waiting after result
    exact .cancelled struck fun v => by simp [mem, notBefore, notAfter]
  | polled =>
    obtain ⟨past, last, idle⟩ := lived
    have notBefore (v : α) : .ready v ∉ lifeOf c (beforeCancel moves) := by
      simp [last, ready_not_mem_of_idle idle]
    obtain ⟨rfl, notAfter⟩ | ⟨v, rfl, first, own⟩ := after?_polled after result
    · exact .cancelled struck fun v => by simp [mem, notBefore, notAfter]
    · exact .value v (fun w => by simp [mem, notBefore, own]) fun _ => .inr ⟨by simp [last], first⟩
  | leaving r' | returned r' =>
    obtain ⟨v, rfl, own⟩ := lived.result rfl
    obtain ⟨kept, notAfter⟩ := after?_of_result? after rfl
    obtain rfl := Option.some_inj.mp (result.symm.trans kept)
    exact .value v (fun w => by simp [mem, own, notAfter]) fun _ => .inl ((own v).mpr rfl)

theorem Follows.admitted (follows : Follows moves g) (early : c < starts (beforeCancel moves)) :
    ∃ call, g.calls[c]? = some call ∧ call.number = some c ∧
      ∀ r, call.stage.result? = some r → Yields moves c r := by
  obtain ⟨call, at_, lives⟩ :=
    follows.exists_call (early.trans_le (starts_beforeCancel_le moves))
  refine ⟨call, at_, ?_⟩
  cases lives with
  | refused late => omega
  | @admitted h stage midway _ inside before after =>
    refine ⟨rfl, fun r result => ?_⟩
    cases aborted : (signalAfter moves).isAborted c with
    | true =>
      rw [aborted] at after
      exact yields_of_struck ((isAborted_signalAfter moves c).mp aborted) before after result
    | false =>
      rw [aborted] at after
      exact yields_of_not_struck aborted before after result

theorem Follows.refused (follows : Follows moves g) (refused : Refused moves c) :
    g.stage? c = some (.returned none) ∧ lifeOf c moves = [] := by
  obtain ⟨call, at_, lives⟩ := follows.exists_call refused.2
  rw [Guards.stage?, at_]
  cases lives with
  | refused late inside idle => exact ⟨rfl, idle⟩
  | admitted midway early =>
    have late := refused.1
    omega

/-! ### Calls that no other overlaps -/

/-- The call at one place has left before the call at another starts. -/
def Precedes (moves : List (Move α)) (d c : Nat) : Prop :=
  ∃ before h after, moves = before ++ .start h :: after ∧ starts before = c ∧
    .act d .leave ∈ before

/-- Every other call that was not refused has left before this one starts, or starts once this one
has left. -/
def Alone (moves : List (Move α)) (c : Nat) : Prop :=
  ∀ d < starts moves, d ≠ c → ¬ Refused moves d → Precedes moves d c ∨ Precedes moves c d

theorem exists_start (present : c < starts moves) :
    ∃ before h after, moves = before ++ .start h :: after ∧ starts before = c := by
  induction moves using List.reverseRecOn with
  | nil => simp [starts] at present
  | append_singleton moves m ih =>
    by_cases earlier : c < starts moves
    · obtain ⟨before, h, after, rfl, count⟩ := ih earlier
      exact ⟨before, h, after ++ [m], by simp, count⟩
    · cases m <;> simp [Move.isStart] at present
      case start h => exact ⟨moves, h, [], rfl, by omega⟩
      all_goals omega

theorem start_unique {xs ys before after : List (Move α)} {h k : Nat}
    (cut : before ++ .start h :: after = xs ++ .start k :: ys)
    (count : starts before = starts xs) : before = xs := by
  obtain ⟨extra, rfl, tail⟩ | ⟨extra, rfl, tail⟩ := List.append_eq_append_iff.mp cut
  all_goals
    cases extra with
    | nil => simp
    | cons m zs =>
      obtain ⟨rfl, -⟩ := List.cons.inj tail
      rw [starts_append_start] at count
      omega

/-- A call that has left before another one starts has left where that one does. -/
theorem Precedes.mem_of_cut {before since : List (Move α)} {h : Nat}
    (precedes : Precedes moves d (starts before))
    (cut : beforeCancel moves = before ++ .start h :: since) : .act d .leave ∈ before := by
  obtain ⟨xs, k, ys, split, count, left⟩ := precedes
  have whole : before ++ .start h :: (since ++ fromCancel moves) = xs ++ .start k :: ys := by
    have joined := beforeCancel_append_fromCancel moves
    rw [cut, List.append_assoc, List.cons_append] at joined
    exact joined.trans split
  rwa [start_unique whole count.symm]

theorem Precedes.mem_beforeCancel (precedes : Precedes moves d c)
    (early : c < starts (beforeCancel moves)) : .act d .leave ∈ beforeCancel moves := by
  obtain ⟨before, h, since, cut, rfl⟩ := exists_start early
  rw [cut]
  exact List.mem_append_left _ (precedes.mem_of_cut cut)

theorem Precedes.lt (precedes : Precedes moves d c) (ran : Guards.run? {} moves = some g) :
    d < c := by
  obtain ⟨before, h, after, rfl, rfl, left⟩ := precedes
  obtain ⟨mid, earlier, -⟩ := run?_append.mp ran
  exact (follows_run earlier).present_of_mem left

/-- Before a cancellation, a call that leaves has a value, and leaves once. -/
theorem Follows.leave (follows : Follows moves g) (calm : isCancelled moves = false)
    (left : .leave ∈ lifeOf c moves) :
    ∃ past v, lifeOf c moves = past ++ [.ready v, .leave] ∧ ∀ a ∈ past, a.isIdle = true := by
  have early : c < starts (beforeCancel moves) := by
    rw [beforeCancel_of_calm calm]
    exact follows.present_of_mem (mem_lifeOf.mp left)
  obtain ⟨call, -, lives⟩ :=
    follows.exists_call (early.trans_le (starts_beforeCancel_le moves))
  cases lives with
  | refused late => omega
  | admitted midway _ _ before =>
    rw [beforeCancel_of_calm calm] at before
    exact (lived_of_after? before).leave left

theorem Follows.leave_once {xs ys : List (Move α)} (follows : Follows (xs ++ ys) g)
    (calm : isCancelled (xs ++ ys) = false) (left : .act c .leave ∈ xs) : .act c .leave ∉ ys := by
  intro again
  obtain ⟨past, v, life, idle⟩ := follows.leave calm (c := c) (by simp [mem_lifeOf, left])
  rw [lifeOf_append] at life
  obtain ⟨rest, a, last⟩ : ∃ rest a, lifeOf c ys = rest ++ [a] := by
    obtain none | some := List.eq_nil_or_concat' (lifeOf c ys)
    · simpa [none] using mem_lifeOf.mpr again
    · exact some
  have whole : (lifeOf c xs ++ rest) ++ [a] = (past ++ [.ready v]) ++ [.leave] := by
    simpa [last] using life
  have front := (List.append_inj' whole rfl).1
  have early : .leave ∈ past ++ [.ready v] := by
    rw [← front]
    exact List.mem_append_left _ (mem_lifeOf.mpr left)
  have early : .leave ∈ past := by simpa using early
  simpa [Act.isIdle] using idle _ early

/-- A call that no other overlaps is in flight until it has its value. -/
theorem Alone.inFlight (alone : Alone moves c) (ran : Guards.run? {} moves = some g)
    (early : c < starts (beforeCancel moves))
    (never : ∀ v, .ready v ∉ lifeOf c (beforeCancel moves)) : InFlight (beforeCancel moves) c := by
  have calm := isCancelled_beforeCancel moves
  obtain ⟨mid, follows⟩ : ∃ mid : Guards α, Follows (beforeCancel moves) mid := by
    rw [← beforeCancel_append_fromCancel moves] at ran
    obtain ⟨mid, earlier, -⟩ := run?_append.mp ran
    exact ⟨mid, follows_run earlier⟩
  have stays : .act c .leave ∉ beforeCancel moves := by
    intro left
    obtain ⟨past, v, life, -⟩ := follows.leave calm (mem_lifeOf.mpr left)
    exact never v (by simp [life])
  have others : ∀ d < starts (beforeCancel moves), d ≠ c → Precedes moves d c := by
    intro d present other
    have admitted : ¬ Refused moves d := fun refused => absurd refused.1 (by omega)
    have known := present.trans_le (starts_beforeCancel_le moves)
    obtain before | after := alone d known other admitted
    · exact before
    · exact absurd (after.mem_beforeCancel present) stays
  obtain ⟨before, h, since, cut, rfl⟩ := exists_start early
  refine ⟨calm, before, h, since, cut, rfl, fun m mem => ?_⟩
  cases m with
  | clone | cancel => exact ⟨rfl, rfl⟩
  | start k =>
    -- Another call starts later, so it has not left before this one starts.
    obtain ⟨front, back, rfl⟩ := List.append_of_mem mem
    have later : starts before < starts (before ++ .start h :: front) := by
      rw [starts_append_start]
      omega
    have present : starts (before ++ .start h :: front) < starts (beforeCancel moves) := by
      rw [cut, starts_append_start, starts_append_start, starts_append_start]
      omega
    have earlier := (others _ present later.ne').lt ran
    omega
  | act d a =>
    refine ⟨rfl, ?_⟩
    cases a with
    | poll | ready | pending => rfl
    | leave =>
      -- The call that leaves is another, which has left before this one starts.
      have there : .act d .leave ∈ beforeCancel moves := by simp [cut, mem]
      have other : d ≠ starts before := fun same => stays (same ▸ there)
      have left := (others d (follows.present_of_mem there) other).mem_of_cut cut
      rw [cut] at follows calm
      exact absurd (List.mem_cons_of_mem _ mem) (follows.leave_once calm left)

/-! ### What the calls do -/

theorem Follows.exists_step {a : Act α} (follows : Follows moves g)
    (at_ : g.stage? c = some stage)
    (next : stage.next? ((signalAfter moves).isAborted c) a = some later) :
    ∃ g', g.step? (.act c a) = some g' ∧ g'.stage? c = some later := by
  obtain ⟨call, here, rfl⟩ := Option.map_eq_some_iff.mp at_
  have lives := follows.lives c call here
  cases lives with
  | refused => cases a <;> simp [Stage.next?] at next
  | @admitted h stage _ _ inside =>
    have shown : g.signals.get? h = some (signalAfter moves) := by
      rw [follows.signals, Shared.get?_onOne_eq_some]
      exact ⟨by omega, rfl⟩
    have present : c < g.calls.length := (List.getElem?_eq_some_iff.mp here).1
    refine ⟨{ signals := g.signals.modify h a.effect
              calls := g.calls.set c ⟨h, some c, later⟩ }, ?_, ?_⟩
    · simp [Guards.step?, here, shown, next]
    · simp [Guards.stage?, present]

/-- Whatever the others are doing, a call can do what its stage lets it do. -/
theorem Follows.goes_on (follows : Follows moves g) (at_ : g.stage? c = some stage)
    (after : stage.after? ((signalAfter moves).isAborted c) acts = some later) :
    ∃ g', g.run? (acts.map (.act c)) = some g' ∧ g'.stage? c = some later := by
  induction acts generalizing moves g stage with
  | nil =>
    obtain rfl := after?_nil.mp after
    exact ⟨g, rfl, at_⟩
  | cons a acts ih =>
    obtain ⟨next, first, rest⟩ := after?_cons.mp after
    obtain ⟨mid, step, there⟩ := follows.exists_step at_ first
    have same := isAborted_concat (m := .act c a) moves (.inr rfl) c
    obtain ⟨g', run, last⟩ := ih (follows.step step) there (by rwa [same])
    refine ⟨g', ?_, last⟩
    rw [List.map_cons, ← List.singleton_append, run?_append]
    exact ⟨mid, by rwa [run?_singleton], run⟩

/-- What has come of the moves of guarded calls, of clones and of cancellations in any order. -/
structure Guarded (moves : List (Move α)) (g : Guards α) (signal : Cancellation) : Prop where
  /-- Every clone shows one signal. -/
  shown : ∀ h ≤ clones moves, g.signals.get? h = some signal
  /-- It is cancelled from the first cancellation on. -/
  cancelled : signal.cancelled = isCancelled moves
  tracked : ∀ c, signal.tracked = some c ↔ InFlight moves c
  aborted : ∀ c, c ∈ signal.aborted ↔ Struck moves c
  once : signal.aborted.length ≤ 1
  /-- A call that starts after a cancellation is over at once, and its future is not polled. -/
  refused : ∀ c, Refused moves c → g.stage? c = some (.returned none) ∧ lifeOf c moves = []
  /-- A call that starts before is numbered by its place. -/
  admitted : ∀ c < starts (beforeCancel moves), ∃ call, g.calls[c]? = some call ∧
    call.number = some c ∧ ∀ r, call.stage.result? = some r → Yields moves c r
  /-- A call that no other overlaps is struck by a cancellation that comes before its value. -/
  alone : ∀ c < starts (beforeCancel moves), Alone moves c → isCancelled moves = true →
    (∀ v, .ready v ∉ lifeOf c (beforeCancel moves)) → Struck moves c ∧
      ∀ stage r, g.stage? c = some stage → stage.result? = some r →
        r = none ∨ ∃ v, r = some v ∧ ReadyAsCancelled moves c v
  /-- No call is tracked from when one leaves until the next one starts. -/
  left : ∀ before c rest, moves = before ++ .act c .leave :: rest → starts rest = 0 →
    signal.tracked = none
  goes_on : ∀ c stage acts later, g.stage? c = some stage →
    stage.after? (signal.isAborted c) acts = some later →
    ∃ g', g.run? (acts.map (.act c)) = some g' ∧ g'.stage? c = some later

theorem not_inFlight_of_left {before rest : List (Move α)}
    (still : starts rest = 0) : ¬ InFlight (before ++ .act d .leave :: rest) c := by
  rintro ⟨-, front, h, since, cut, -, quiet⟩
  obtain ⟨extra, rfl, tail⟩ | ⟨extra, rfl, tail⟩ := List.append_eq_append_iff.mp cut
  · cases extra with
    | nil => cases tail
    | cons m extra =>
      have again : rest = extra ++ .start h :: since := (List.cons.inj tail).2
      rw [again, starts_append_start] at still
      omega
  · cases extra with
    | nil => cases tail
    | cons m extra =>
      obtain ⟨rfl, rfl⟩ := List.cons.inj tail
      have busy := (quiet (.act d .leave) (by simp)).2
      simp [Move.isLeave] at busy

/-- The account of every run of one signal. -/
theorem run_guarded (ran : Guards.run? {} moves = some g) : ∃ signal, Guarded moves g signal := by
  have follows := follows_run ran
  refine ⟨signalAfter moves, ?_, cancelled_signalAfter moves, tracked_signalAfter moves, ?_,
    length_aborted_signalAfter moves, fun c => follows.refused, fun c => follows.admitted, ?_, ?_,
    fun c stage acts later => follows.goes_on⟩
  · intro h inside
    rw [follows.signals, Shared.get?_onOne_eq_some]
    exact ⟨by omega, rfl⟩
  · intro c
    rw [← isAborted_signalAfter, isAborted, List.contains_iff_mem]
  · intro c early alone done never
    have struck : Struck moves c := ⟨done, alone.inFlight ran early never⟩
    refine ⟨struck, fun stage r at_ result => ?_⟩
    obtain ⟨call, here, -, yields⟩ := follows.admitted early
    obtain rfl : call.stage = stage := by simpa [Guards.stage?, here] using at_
    cases yields r result with
    | cancelled => exact .inl rfl
    | value v own kept => exact .inr ⟨v, rfl, (kept struck).resolve_left (never v)⟩
  · rintro before c rest rfl still
    refine Option.eq_none_iff_forall_ne_some.mpr fun d tracked => ?_
    exact not_inFlight_of_left still ((tracked_signalAfter _ d).mp tracked)

/-- Two calls that overlap, a cancellation while the second is polled, and a third call. -/
def overlapping : List (Move Nat) :=
  [.start 0, .act 0 .poll, .act 0 .pending, .clone 0, .start 1, .act 1 .poll, .cancel 1,
    .act 1 .pending, .act 1 .leave, .act 0 .poll, .act 0 (.ready 7), .act 0 .leave, .start 0]

def overlapped : Guards Nat where
  signals := ⟨[{ cancelled := true, aborted := [1], started := 2 }], [0, 0]⟩
  calls := [⟨0, some 0, .returned (some 7)⟩, ⟨1, some 1, .returned none⟩, ⟨0, none, .returned none⟩]

theorem run_guarded_overlapping : Guards.run? {} overlapping = some overlapped ∧
    ∃ signal, Guarded overlapping overlapped signal :=
  ⟨rfl, run_guarded rfl⟩

end LintBridge.Cancellation
