import LintBridge.Shared

/-! The warnings that a session shows to its user, each text once, in the order in which they first
came up. Handles share a list, so that it can outlive many runs. -/

namespace LintBridge

structure WarningList where
  messages : List String := []
  deriving DecidableEq, Repr, Inhabited

namespace WarningList

/-- Whether a text is to be added: only one that is not there yet. -/
def admits (w : WarningList) (text : String) : Bool := !w.messages.contains text

/-- Adds a text unless it is there already. -/
def add (w : WarningList) (text : String) : WarningList :=
  if w.admits text then ⟨w.messages ++ [text]⟩ else w

/-- Adds texts in their order, each once. -/
def addAll (w : WarningList) (texts : List String) : WarningList := texts.foldl add w

def isEmpty (w : WarningList) : Bool := w.messages.isEmpty

theorem admits_iff {w : WarningList} {text : String} :
    w.admits text = true ↔ text ∉ w.messages := by
  simp [admits]

theorem mem_add (w : WarningList) (text : String) : text ∈ (w.add text).messages := by
  by_cases admitted : w.admits text = true
  · rw [add, if_pos admitted]
    exact List.mem_append_right _ (List.mem_singleton_self text)
  · rw [add, if_neg admitted]
    exact Decidable.not_not.mp (mt admits_iff.mpr admitted)

theorem mem_add_of_mem {w : WarningList} {old : String} (h : old ∈ w.messages) (text : String) :
    old ∈ (w.add text).messages := by
  by_cases admitted : w.admits text = true
  · rw [add, if_pos admitted]
    exact List.mem_append_left _ h
  · rw [add, if_neg admitted]
    exact h

/-- All texts that are added are there, and all that were there before. -/
theorem mem_addAll {w : WarningList} {texts : List String} {text : String}
    (h : text ∈ w.messages ∨ text ∈ texts) : text ∈ (w.addAll texts).messages := by
  induction texts generalizing w with
  | nil => simpa [addAll] using h
  | cons first rest ih =>
    refine ih (w := w.add first) ?_
    rcases h with old | new
    · exact .inl (mem_add_of_mem old first)
    · obtain rfl | later := List.mem_cons.mp new
      · exact .inl (mem_add w text)
      · exact .inr later

/-- No text comes twice. -/
theorem nodup_add {w : WarningList} (h : w.messages.Nodup) (text : String) :
    (w.add text).messages.Nodup := by
  by_cases admitted : w.admits text = true
  · rw [add, if_pos admitted]
    refine List.nodup_append.mpr ⟨h, by simp, fun old member new added same => ?_⟩
    obtain rfl := List.mem_singleton.mp added
    exact admits_iff.mp admitted (same ▸ member)
  · rw [add, if_neg admitted]
    exact h

theorem nodup_addAll {w : WarningList} (h : w.messages.Nodup) (texts : List String) :
    (w.addAll texts).messages.Nodup := by
  induction texts generalizing w with
  | nil => exact h
  | cons text rest ih => exact ih (nodup_add h text)

/-- What is done with handles on lists of warnings. -/
inductive Step where
  | add (handle : Nat) (text : String)
  | clone (handle : Nat)
  | fresh
  deriving DecidableEq, Repr

/-- The handles after a step, and for an addition whether the text was new. -/
def Step.run (lists : Shared WarningList) : Step → Option Bool × Shared WarningList
  | .add handle text =>
    ((lists.get? handle).map (·.admits text), lists.modify handle (WarningList.add · text))
  | .clone handle => (none, lists.clone handle)
  | .fresh => (none, lists.fresh {})

end WarningList

end LintBridge
