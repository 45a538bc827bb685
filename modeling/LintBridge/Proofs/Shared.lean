import LintBridge.Proofs.Lists
import LintBridge.Shared

/-! Handles on shared values: what shows through them after each step, and handles that were all
cloned from one, which are as many names of the one value. -/

namespace LintBridge.Shared

variable {α : Type}

/-! ### Steps -/

/-- A change shows through every handle on the value that is changed, and through no other. -/
theorem get?_modify (s : Shared α) (h h' : Nat) (f : α → α) :
    (s.modify h f).get? h' =
      if s.handles[h']? = s.handles[h]? then (s.get? h').map f else s.get? h' := by
  rw [modify]
  cases there : s.handles[h]? with
  | none => by_cases missing : s.handles[h']? = none <;> simp [get?, missing]
  | some cell =>
    cases there' : s.handles[h']? with
    | none => simp [get?, there']
    | some cell' =>
      simp only [get?, there', Option.bind_some, List.getElem?_modify, Option.some.injEq,
        eq_comm (a := cell')]
      split <;> simp

theorem handles_modify (s : Shared α) (h : Nat) (f : α → α) :
    (s.modify h f).handles = s.handles := by
  rw [modify]
  split <;> rfl

theorem handles_clone (s : Shared α) (h : Nat) :
    (s.clone h).handles = s.handles ++ s.handles[h]?.toList := by
  rw [clone]
  split
  next there => rw [there, Option.toList_some]
  next missing => rw [missing, Option.toList_none, List.append_nil]

/-- A clone shows what the handle shows that it is cloned from. -/
theorem get?_clone (s : Shared α) (h h' : Nat) :
    (s.clone h).get? h' = if h' = s.handles.length then s.get? h else s.get? h' := by
  have same : (s.clone h).cells = s.cells := by
    rw [clone]
    split <;> rfl
  simp only [get?, handles_clone, same, getElem?_append_toList]
  split <;> rfl

/-- A fresh handle shows its own value, where every handle has one. -/
theorem get?_fresh {s : Shared α} (held : ∀ cell ∈ s.handles, cell < s.cells.length) (a : α)
    (h : Nat) : (s.fresh a).get? h = if h = s.handles.length then some a else s.get? h := by
  have last : (s.fresh a).handles[h]? =
      if h = s.handles.length then some s.cells.length else s.handles[h]? :=
    getElem?_append_toList s.handles (some s.cells.length) h
  rw [get?, last]
  split
  · exact List.getElem?_concat_length
  · rw [get?]
    cases there : s.handles[h]? with
    | none => rfl
    | some cell => exact List.getElem?_append_left (held cell (List.mem_of_getElem? there))

/-! ### One value -/

/-- So many handles on one value. -/
def onOne (handles : Nat) (a : α) : Shared α := ⟨[a], List.replicate handles 0⟩

theorem single_eq_onOne (a : α) : single a = onOne 1 a := rfl

theorem get?_onOne (n h : Nat) (a : α) :
    (onOne n a).get? h = if h < n then some a else none := by
  simp only [get?, onOne, List.getElem?_replicate]
  split <;> rfl

theorem get?_onOne_eq_some {n h : Nat} {a b : α} :
    (onOne n a).get? h = some b ↔ h < n ∧ b = a := by
  rw [get?_onOne]
  split
  next inside => simp [inside, eq_comm]
  next outside => simp [outside]

theorem modify_onOne {n h : Nat} (inside : h < n) (a : α) (f : α → α) :
    (onOne n a).modify h f = onOne n (f a) := by
  simp [modify, onOne, inside]

theorem clone_onOne {n h : Nat} (inside : h < n) (a : α) :
    (onOne n a).clone h = onOne (n + 1) a := by
  simp [clone, onOne, inside, List.replicate_succ']

end LintBridge.Shared
