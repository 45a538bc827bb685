import LintBridge.Proofs.Lists
import LintBridge.Proofs.Shared
import LintBridge.WarningList
import Mathlib.Data.List.Induction

/-! Lists of warnings behind any number of handles.  Each list has a founder, the handle that it was
made with, and every clone of one of its handles is on the same list.  What a handle shows is told
by the texts that were added through the handles of its founder, and by nothing else: `shown_after`.
-/

namespace LintBridge.WarningList

/-! ### Founders -/

/-- The founders of the handles after a step: a clone has that of the handle that it was cloned
from, and a fresh handle is its own. -/
def Step.enrol (founders : List Nat) : Step → List Nat
  | .add _ _ => founders
  | .clone handle => founders ++ founders[handle]?.toList
  | .fresh => founders ++ [founders.length]

/-- The founders of the handles that steps make. -/
def founders (steps : List Step) : List Nat := steps.foldl Step.enrol []

/-- What a step adds through a handle of a founder. -/
def Step.addition (founders : List Nat) (founder : Nat) : Step → List String
  | .add handle text => if founders[handle]? = some founder then [text] else []
  | .clone _ | .fresh => []

/-- The texts that steps add through handles of a founder, where there are handles before them. -/
def additionsFrom (founders : List Nat) (founder : Nat) : List Step → List String
  | [] => []
  | step :: rest =>
    step.addition founders founder ++ additionsFrom (step.enrol founders) founder rest

/-- The texts that steps add through handles of a founder. -/
def additions (founder : Nat) (steps : List Step) : List String := additionsFrom [] founder steps

/-- The lists, and the handles on them, after steps. -/
def after (steps : List Step) : Shared WarningList :=
  steps.foldl (fun lists step => (step.run lists).2) ⟨[], []⟩

/-- Two handles are of one family: one handle is the founder of both. -/
def Kin (steps : List Step) (h h' : Nat) : Prop :=
  ∃ founder, (founders steps)[h]? = some founder ∧ (founders steps)[h']? = some founder

variable {founder handle : Nat} {steps : List Step}

theorem founders_append (steps more : List Step) :
    founders (steps ++ more) = more.foldl Step.enrol (founders steps) := List.foldl_append

theorem founders_concat (steps : List Step) (step : Step) :
    founders (steps ++ [step]) = step.enrol (founders steps) := founders_append steps [step]

theorem after_concat (steps : List Step) (step : Step) :
    after (steps ++ [step]) = (step.run (after steps)).2 := List.foldl_append

theorem additionsFrom_append (made : List Nat) (founder : Nat) (steps more : List Step) :
    additionsFrom made founder (steps ++ more) =
      additionsFrom made founder steps ++
        additionsFrom (steps.foldl Step.enrol made) founder more := by
  induction steps generalizing made with
  | nil => rfl
  | cons step rest ih =>
    rw [List.cons_append, additionsFrom, additionsFrom, ih, List.append_assoc, List.foldl_cons]

theorem additions_append (founder : Nat) (steps more : List Step) :
    additions founder (steps ++ more) =
      additions founder steps ++ additionsFrom (founders steps) founder more :=
  additionsFrom_append [] founder steps more

theorem additions_concat (founder : Nat) (steps : List Step) (step : Step) :
    additions founder (steps ++ [step]) =
      additions founder steps ++ step.addition (founders steps) founder := by
  rw [additions_append, additionsFrom, additionsFrom, List.append_nil]

/-- Founders are kept: steps only make handles. -/
theorem prefix_foldl_enrol (made : List Nat) (more : List Step) :
    made <+: more.foldl Step.enrol made := by
  induction more generalizing made with
  | nil => exact List.prefix_refl made
  | cons step rest ih =>
    refine List.IsPrefix.trans ?_ (ih (step.enrol made))
    cases step with
    | add => exact List.prefix_refl made
    | clone handle => exact List.prefix_append ..
    | fresh => exact List.prefix_append ..

theorem founder_kept (known : (founders steps)[handle]? = some founder) (more : List Step) :
    (founders (steps ++ more))[handle]? = some founder := by
  rw [founders_append]
  obtain ⟨inside, _⟩ := List.getElem?_eq_some_iff.mp known
  obtain ⟨rest, whole⟩ := prefix_foldl_enrol (founders steps) more
  rw [← whole, List.getElem?_append_left inside, known]

/-- A founder is a handle that was made before, or the handle itself. -/
theorem founder_lt (member : founder ∈ founders steps) : founder < (founders steps).length := by
  induction steps using List.reverseRecOn with
  | nil => cases member
  | append_singleton before step ih =>
    rw [founders_concat] at member ⊢
    cases step with
    | add => exact ih member
    | clone handle =>
      rw [Step.enrol] at member ⊢
      have old : founder ∈ founders before := by
        rcases List.mem_append.mp member with old | new
        · exact old
        · exact List.mem_of_getElem? (Option.mem_toList.mp new)
      exact Nat.lt_of_lt_of_le (ih old) (by simp)
    | fresh =>
      rw [Step.enrol, List.length_append, List.length_singleton]
      rcases List.mem_append.mp member with old | new
      · exact Nat.lt_succ_of_lt (ih old)
      · exact List.mem_singleton.mp new ▸ Nat.lt_succ_self _

/-- Nothing is added to a list before it is made. -/
theorem additions_eq_nil (later : (founders steps).length ≤ founder) :
    additions founder steps = [] := by
  induction steps using List.reverseRecOn with
  | nil => rfl
  | append_singleton before step ih =>
    rw [founders_concat] at later
    have earlier : (founders before).length ≤ founder :=
      Nat.le_trans (prefix_foldl_enrol _ [step]).length_le later
    rw [additions_concat, ih earlier, List.nil_append]
    cases step with
    | add handle text =>
      refine if_neg fun known => ?_
      exact Nat.not_lt.mpr earlier (founder_lt (List.mem_of_getElem? known))
    | clone => rfl
    | fresh => rfl

/-! ### What handles show -/

theorem add_eraseDups (texts : List String) (text : String) :
    (⟨texts.eraseDups⟩ : WarningList).add text = ⟨(texts ++ [text]).eraseDups⟩ := by
  rw [List.eraseDups_append, List.removeAll, add]
  by_cases old : text ∈ texts
  · simp [admits, old]
  · simp [admits, old, List.eraseDups_cons]

theorem nodup_eraseDups (texts : List String) : texts.eraseDups.Nodup := by
  induction texts using List.reverseRecOn with
  | nil => exact List.nodup_nil
  | append_singleton before text ih =>
    have added : ((⟨before.eraseDups⟩ : WarningList).add text).messages.Nodup := nodup_add ih text
    rwa [add_eraseDups] at added

/-- The handles that steps make are as many as their founders. Those with one founder are on one
list, and no others are; and every handle shows what was added through the handles of its founder.
-/
structure Follows (steps : List Step) (lists : Shared WarningList) : Prop where
  handles : lists.handles.length = (founders steps).length
  kin : ∀ h h' : Nat, lists.handles[h]? = lists.handles[h']? ↔
    (founders steps)[h]? = (founders steps)[h']?
  shown : ∀ h, lists.get? h =
    (founders steps)[h]?.map fun founder => ⟨(additions founder steps).eraseDups⟩

namespace Follows

variable {lists : Shared WarningList}

theorem held (follows : Follows steps lists) :
    ∀ cell ∈ lists.handles, cell < lists.cells.length := by
  intro cell member
  obtain ⟨h, there⟩ := List.getElem?_of_mem member
  have inside : h < (founders steps).length :=
    follows.handles ▸ (List.getElem?_eq_some_iff.mp there).1
  have shown := follows.shown h
  rw [Shared.get?, there, List.getElem?_eq_getElem inside] at shown
  exact (List.getElem?_eq_some_iff.mp shown).1

theorem kin_append (follows : Follows steps lists) {cell founder : Option Nat}
    (alike : ∀ h : Nat, lists.handles[h]? = cell ↔ (founders steps)[h]? = founder) (h h' : Nat) :
    (lists.handles ++ cell.toList)[h]? = (lists.handles ++ cell.toList)[h']? ↔
      (founders steps ++ founder.toList)[h]? = (founders steps ++ founder.toList)[h']? := by
  simp only [getElem?_append_toList, follows.handles]
  by_cases last : h = (founders steps).length <;> by_cases last' : h' = (founders steps).length <;>
    simp only [last, last', if_true, if_false]
  · rw [eq_comm, alike, eq_comm]
  · exact alike h
  · exact follows.kin h h'

theorem add (follows : Follows steps lists) (handle : Nat) (text : String) :
    Follows (steps ++ [.add handle text]) (lists.modify handle (WarningList.add · text)) := by
  have made : founders (steps ++ [.add handle text]) = founders steps := founders_concat ..
  have same := Shared.handles_modify lists handle (WarningList.add · text)
  refine ⟨by rw [same, made, follows.handles], fun h h' => by rw [same, made, follows.kin], ?_⟩
  intro h
  rw [Shared.get?_modify, made, follows.shown]
  cases known : (founders steps)[h]? with
  | none => simp
  | some founder =>
    simp only [follows.kin, known, Option.map_some, additions_concat, Step.addition,
      eq_comm (a := some founder)]
    split
    · rw [add_eraseDups]
    · rw [List.append_nil]

theorem clone (follows : Follows steps lists) (handle : Nat) :
    Follows (steps ++ [.clone handle]) (lists.clone handle) := by
  have made : founders (steps ++ [.clone handle]) =
      founders steps ++ (founders steps)[handle]?.toList := founders_concat ..
  have kept (founder : Nat) : additions founder (steps ++ [.clone handle]) =
      additions founder steps := (additions_concat ..).trans (List.append_nil _)
  refine ⟨?_, fun h h' => ?_, fun h => ?_⟩
  · rw [Shared.handles_clone, made, List.length_append, List.length_append, follows.handles]
    by_cases inside : handle < (founders steps).length
    · simp [inside, follows.handles]
    · simp [inside, follows.handles]
  · rw [Shared.handles_clone, made]
    exact follows.kin_append (follows.kin · handle) h h'
  · simp only [Shared.get?_clone, made, getElem?_append_toList, kept, follows.handles]
    split
    · exact follows.shown handle
    · exact follows.shown h

theorem fresh (follows : Follows steps lists) :
    Follows (steps ++ [.fresh]) (lists.fresh {}) := by
  have made : founders (steps ++ [.fresh]) =
      founders steps ++ (some (founders steps).length).toList := founders_concat ..
  have kept (founder : Nat) : additions founder (steps ++ [.fresh]) =
      additions founder steps := (additions_concat ..).trans (List.append_nil _)
  have apart (h : Nat) : lists.handles[h]? = some lists.cells.length ↔
      (founders steps)[h]? = some (founders steps).length := by
    refine iff_of_false (fun there => ?_) fun known => ?_
    · exact Nat.lt_irrefl _ (follows.held _ (List.mem_of_getElem? there))
    · exact Nat.lt_irrefl _ (founder_lt (List.mem_of_getElem? known))
  refine ⟨?_, fun h h' => ?_, fun h => ?_⟩
  · simp [made, Shared.fresh, follows.handles]
  · rw [made]
    exact follows.kin_append apart h h'
  · rw [Shared.get?_fresh follows.held, made, getElem?_append_toList, follows.handles]
    split
    · rw [Option.map_some, kept, additions_eq_nil (Nat.le_refl _)]
      rfl
    · simp only [kept]
      exact follows.shown h

/-- What one step does to the handles. -/
theorem step (follows : Follows steps lists) (step : Step) :
    Follows (steps ++ [step]) (step.run lists).2 := by
  cases step with
  | add handle text => exact follows.add handle text
  | clone handle => exact follows.clone handle
  | fresh => exact follows.fresh

/-- What the handles are after any steps. -/
theorem after (steps : List Step) : Follows steps (after steps) := by
  induction steps using List.reverseRecOn with
  | nil => exact ⟨rfl, fun _ _ => .rfl, fun _ => rfl⟩
  | append_singleton before step ih =>
    rw [after_concat]
    exact ih.step step

end Follows

/-! ### Main result -/

theorem get?_after (steps : List Step) (handle : Nat) :
    (after steps).get? handle =
      (founders steps)[handle]?.map fun founder => ⟨(additions founder steps).eraseDups⟩ :=
  (Follows.after steps).shown handle

theorem get?_after_append (known : (founders steps)[handle]? = some founder) (more : List Step) :
    (after (steps ++ more)).get? handle =
      some ⟨(additions founder steps ++
        additionsFrom (founders steps) founder more).eraseDups⟩ := by
  rw [get?_after, founder_kept known, Option.map_some, additions_append]

/-- After any steps a handle shows the texts that were added through the handles of its founder, in
the order in which each first came, and an addition tells whether its text is new among them. So the
handles of one family show the same from then on, what happens to other families is not seen, and a
list holds no text twice and only grows at its end. -/
theorem shown_after (steps : List Step) :
    (∀ h, (after steps).get? h =
      (founders steps)[h]?.map fun founder => ⟨(additions founder steps).eraseDups⟩) ∧
    (∀ h text, ((Step.add h text).run (after steps)).1 =
      (founders steps)[h]?.map fun founder => decide (text ∉ additions founder steps)) ∧
    (∀ h h', Kin steps h h' → ∀ more,
      (after (steps ++ more)).get? h = (after (steps ++ more)).get? h') ∧
    (∀ h founder, (founders steps)[h]? = some founder → ∀ more,
      additionsFrom (founders steps) founder more = [] →
        (after (steps ++ more)).get? h = (after steps).get? h) ∧
    (∀ h w, (after steps).get? h = some w → w.messages.Nodup ∧ ∀ more, ∃ new,
      (after (steps ++ more)).get? h = some ⟨w.messages ++ new⟩) := by
  refine ⟨get?_after steps, fun h text => ?told, ?_, ?unseen, ?grown⟩
  case told =>
    rw [Step.run, get?_after, Option.map_map]
    refine congrArg (fun f => Option.map f _) (funext fun founder => ?_)
    exact Bool.eq_iff_iff.mpr (by simp [admits_iff, List.mem_eraseDups])
  · rintro h h' ⟨founder, known, known'⟩ more
    rw [get?_after_append known, get?_after_append known']
  case unseen =>
    intro h founder known more nothing
    rw [get?_after_append known, nothing, List.append_nil, get?_after, known, Option.map_some]
  case grown =>
    intro h w shown
    rw [get?_after] at shown
    obtain ⟨founder, known, rfl⟩ := Option.map_eq_some_iff.mp shown
    refine ⟨nodup_eraseDups _, fun more => ?_⟩
    have shown := get?_after_append known more
    rw [List.eraseDups_append] at shown
    exact ⟨_, shown⟩

theorem shown_after_clone :
    let steps : List Step := [.fresh, .clone 0, .fresh, .add 0 "x"]
    let more : List Step := [.add 1 "x", .add 0 "y"]
    Kin steps 0 1 ∧ (after (steps ++ more)).get? 0 = (after (steps ++ more)).get? 1 ∧
    (founders steps)[2]? = some 2 ∧ additionsFrom (founders steps) 2 more = [] ∧
    (after (steps ++ more)).get? 2 = (after steps).get? 2 ∧
    (after steps).get? 0 = some ⟨["x"]⟩ ∧
    ∃ new, (after (steps ++ more)).get? 0 = some ⟨["x"] ++ new⟩ := by
  intro steps more
  have kin : Kin steps 0 1 := ⟨0, rfl, rfl⟩
  have known : (founders steps)[2]? = some 2 := rfl
  have nothing : additionsFrom (founders steps) 2 more = [] := rfl
  have first : (after steps).get? 0 = some ⟨["x"]⟩ := by decide
  obtain ⟨-, -, shared, unseen, grown⟩ := shown_after steps
  exact ⟨kin, shared 0 1 kin more, known, nothing, unseen 2 2 known more nothing, first,
    (grown 0 _ first).2 more⟩

/-- A list that two handles are on, and one of the same text apart from it. -/
example : ([0, 1, 2].map
    (after [.fresh, .clone 0, .fresh, .add 0 "x", .add 2 "x", .add 1 "x", .add 1 "y"]).get?) =
      [some ⟨["x", "y"]⟩, some ⟨["x", "y"]⟩, some ⟨["x"]⟩] := by
  decide

end LintBridge.WarningList
