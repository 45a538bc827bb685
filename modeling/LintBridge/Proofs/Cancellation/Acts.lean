import LintBridge.Proofs.Cancellation.History

/-! The acts of one guarded call, and where they leave it: a call that is not aborted has the value
of its future, and one that is aborted has none unless it has its value already, or the poll that
is under way gives it. -/

namespace LintBridge.Cancellation

variable {α : Type} {moves : List (Move α)} {c : Nat} {isAborted : Bool} {stage later : Stage α}
  {acts : List (Act α)}

/-! ### From stage to stage -/

/-- The stage after some acts, if they can come in this order. -/
def Stage.after? (isAborted : Bool) (stage : Stage α) (acts : List (Act α)) : Option (Stage α) :=
  acts.foldlM (Stage.next? isAborted) stage

theorem after?_nil : stage.after? isAborted [] = some later ↔ stage = later := by
  simp [Stage.after?]

theorem after?_cons {a : Act α} : stage.after? isAborted (a :: acts) = some later ↔
    ∃ next, stage.next? isAborted a = some next ∧ next.after? isAborted acts = some later := by
  simp [Stage.after?, Option.bind_eq_some_iff]

theorem after?_concat {a : Act α} : stage.after? isAborted (acts ++ [a]) = some later ↔
    ∃ next, stage.after? isAborted acts = some next ∧ next.next? isAborted a = some later := by
  simp [Stage.after?, List.foldlM_append, Option.bind_eq_some_iff]

def Act.isIdle : Act α → Bool
  | .poll | .pending => true
  | .ready _ | .leave => false

/-- What a call has done, if it has come to a stage and was not aborted before. -/
def Lived (acts : List (Act α)) : Stage α → Prop
  | .waiting => ∀ a ∈ acts, a.isIdle = true
  | .polled => ∃ past, acts = past ++ [.poll] ∧ ∀ a ∈ past, a.isIdle = true
  | .leaving (some v) => ∃ past, acts = past ++ [.ready v] ∧ ∀ a ∈ past, a.isIdle = true
  | .returned (some v) => ∃ past, acts = past ++ [.ready v, .leave] ∧ ∀ a ∈ past, a.isIdle = true
  | .leaving none | .returned none => False

theorem Lived.next {a : Act α} (lived : Lived acts stage)
    (next : stage.next? false a = some later) : Lived (acts ++ [a]) later := by
  cases stage with
  | waiting =>
    cases a <;> simp [Stage.next?] at next
    subst later
    exact ⟨acts, rfl, lived⟩
  | polled =>
    obtain ⟨past, rfl, idle⟩ := lived
    have idle : ∀ a ∈ past ++ [Act.poll], a.isIdle = true := by
      simpa [or_imp, forall_and, Act.isIdle] using idle
    cases a <;> simp [Stage.next?] at next <;> subst later
    · exact ⟨past ++ [.poll], rfl, idle⟩
    · simpa [Lived, or_imp, forall_and, Act.isIdle] using idle
  | leaving result =>
    cases a <;> simp [Stage.next?] at next
    subst later
    cases result with
    | none => exact lived
    | some v =>
      obtain ⟨past, rfl, idle⟩ := lived
      exact ⟨past, by simp, idle⟩
  | returned result => cases a <;> simp [Stage.next?] at next

/-- A call that is not aborted lives on like this. -/
theorem Lived.after {more : List (Act α)} (lived : Lived acts stage)
    (after : stage.after? false more = some later) : Lived (acts ++ more) later := by
  induction more generalizing acts stage with
  | nil =>
    obtain rfl := after?_nil.mp after
    simpa using lived
  | cons a more ih =>
    obtain ⟨next, first, rest⟩ := after?_cons.mp after
    simpa using ih (lived.next first) rest

theorem lived_of_after? (after : Stage.waiting.after? false acts = some stage) :
    Lived acts stage := by
  have none : Lived ([] : List (Act α)) .waiting := by simp [Lived]
  simpa using none.after after

theorem ready_not_mem_of_idle (idle : ∀ a ∈ acts, a.isIdle = true) (v : α) : .ready v ∉ acts :=
  fun mem => by simpa [Act.isIdle] using idle _ mem

/-- The result of a call that was not aborted is the one value of its future. -/
theorem Lived.result {r : Option α} (lived : Lived acts stage) (result : stage.result? = some r) :
    ∃ v, r = some v ∧ ∀ w, .ready w ∈ acts ↔ w = v := by
  cases stage with
  | waiting | polled => simp [Stage.result?] at result
  | leaving result' | returned result' =>
    obtain rfl : result' = r := by simpa [Stage.result?] using result
    cases result' with
    | none => exact lived.elim
    | some v =>
      obtain ⟨past, rfl, idle⟩ := lived
      exact ⟨v, rfl, fun w => by simp [ready_not_mem_of_idle idle]⟩

/-- A call that was not aborted leaves last, and then it has a value. -/
theorem Lived.leave (lived : Lived acts stage) (left : .leave ∈ acts) :
    ∃ past v, acts = past ++ [.ready v, .leave] ∧ ∀ a ∈ past, a.isIdle = true := by
  have notIdle {past : List (Act α)} (idle : ∀ a ∈ past, a.isIdle = true) : .leave ∉ past :=
    fun mem => by simpa [Act.isIdle] using idle _ mem
  cases stage with
  | waiting => exact absurd left (notIdle lived)
  | polled =>
    obtain ⟨past, rfl, idle⟩ := lived
    simp [notIdle idle] at left
  | leaving result =>
    cases result with
    | none => exact lived.elim
    | some v =>
      obtain ⟨past, rfl, idle⟩ := lived
      simp [notIdle idle] at left
  | returned result =>
    cases result with
    | none => exact lived.elim
    | some v =>
      obtain ⟨past, rfl, idle⟩ := lived
      exact ⟨past, v, rfl, idle⟩

/-- A call that has its result keeps it, and has no other value. -/
theorem after?_of_result? {r : Option α} (h : stage.after? isAborted acts = some later)
    (result : stage.result? = some r) : later.result? = some r ∧ ∀ v, .ready v ∉ acts := by
  induction acts generalizing stage with
  | nil =>
    obtain rfl := after?_nil.mp h
    exact ⟨result, fun v => List.not_mem_nil⟩
  | cons a acts ih =>
    obtain ⟨next, first, rest⟩ := after?_cons.mp h
    cases stage <;> cases a <;> simp [Stage.next?] at first <;> simp [Stage.result?] at result
    subst next result
    obtain ⟨kept, none⟩ := ih rest rfl
    exact ⟨kept, by simpa using none⟩

/-- A call that is aborted while it waits has no value. -/
theorem after?_waiting {r : Option α} (h : Stage.waiting.after? true acts = some later)
    (result : later.result? = some r) : r = none ∧ ∀ v, .ready v ∉ acts := by
  cases acts with
  | nil =>
    obtain rfl := after?_nil.mp h
    simp [Stage.result?] at result
  | cons a acts =>
    obtain ⟨next, first, rest⟩ := after?_cons.mp h
    cases a <;> simp [Stage.next?] at first
    subst next
    obtain ⟨kept, none⟩ := after?_of_result? rest rfl
    rw [result] at kept
    exact ⟨Option.some_inj.mp kept, by simpa using none⟩

/-- A call that is aborted while its future is polled has a value only if that poll gives it. -/
theorem after?_polled {r : Option α} (h : Stage.polled.after? true acts = some later)
    (result : later.result? = some r) :
    (r = none ∧ ∀ v, .ready v ∉ acts) ∨
      ∃ v, r = some v ∧ acts.head? = some (.ready v) ∧ ∀ w, .ready w ∈ acts ↔ w = v := by
  cases acts with
  | nil =>
    obtain rfl := after?_nil.mp h
    simp [Stage.result?] at result
  | cons a acts =>
    obtain ⟨next, first, rest⟩ := after?_cons.mp h
    cases a with
    | poll | leave => simp [Stage.next?] at first
    | pending =>
      simp [Stage.next?] at first
      subst next
      obtain ⟨kept, none⟩ := after?_of_result? rest rfl
      rw [result] at kept
      exact .inl ⟨Option.some_inj.mp kept, by simpa using none⟩
    | ready v =>
      simp [Stage.next?] at first
      subst next
      obtain ⟨kept, none⟩ := after?_of_result? rest rfl
      rw [result] at kept
      exact .inr ⟨v, Option.some_inj.mp kept, rfl, fun w => by simp [none]⟩

/-! ### The acts of a call among all moves -/

def Move.actOf? (c : Nat) : Move α → Option (Act α)
  | act d a => if d = c then some a else none
  | clone _ | cancel _ | start _ => none

def lifeOf (c : Nat) (moves : List (Move α)) : List (Act α) := moves.filterMap (Move.actOf? c)

theorem lifeOf_append (c : Nat) (moves rest : List (Move α)) :
    lifeOf c (moves ++ rest) = lifeOf c moves ++ lifeOf c rest :=
  List.filterMap_append

theorem lifeOf_singleton (c : Nat) (m : Move α) : lifeOf c [m] = (m.actOf? c).toList := by
  cases h : m.actOf? c <;> simp [lifeOf, h]

theorem mem_lifeOf {a : Act α} : a ∈ lifeOf c moves ↔ .act c a ∈ moves := by
  simp only [lifeOf, List.mem_filterMap]
  constructor
  · rintro ⟨m, mem, isAct⟩
    cases m <;> simp [Move.actOf?] at isAct
    obtain ⟨rfl, rfl⟩ := isAct
    exact mem
  · exact fun mem => ⟨_, mem, by simp [Move.actOf?]⟩

theorem lifeOf_split (c : Nat) (moves : List (Move α)) :
    lifeOf c (beforeCancel moves) ++ lifeOf c (fromCancel moves) = lifeOf c moves := by
  rw [← lifeOf_append, beforeCancel_append_fromCancel]

end LintBridge.Cancellation
