import LintBridge.Proofs.Json.Printing
import LintBridge.Proofs.Json.Reading
import LintBridge.Proofs.RuleSet.Resolution

/-! The configuration of the linter as it is stored.  Whatever the parameters of the active rules
hold, the stored octets are a JSON document of the configuration, and of nothing else:
`decodes_ofActive`. -/

namespace LintBridge

open LintBridge.Text LintBridge.Json

/-! ### Values of rules -/

theorem hasNumbers_withOptions (name : String) (items : List String) :
    (withOptions name items).HasNumbers := by
  have texts : Value.ItemsHaveNumbers (items.map .text) := by
    refine Value.itemsHaveNumbers_of_forall fun v member => ?_
    obtain ⟨item, -, rfl⟩ := List.mem_map.mp member
    trivial
  exact ⟨trivial, ⟨texts, trivial⟩, trivial⟩

theorem hasNumbers_render {c : CatalogEntry} {rule : ActiveRule} {v : Value}
    (h : c.render rule = .ok v) : v.HasNumbers := by
  unfold CatalogEntry.render at h
  split at h
  · cases h
    trivial
  · cases h
    exact hasNumbers_withOptions _ _
  · cases truth : rule.boolParam "ignoreFallbacks" true with
    | error e =>
      rw [truth] at h
      cases h
    | ok ignore =>
      rw [truth] at h
      cases h
      cases ignore
      · trivial
      · exact hasNumbers_withOptions _ _
  · cases h
    exact hasNumbers_withOptions _ _

namespace RuleSet

/-- Octets are the text of a JSON document of a value. -/
def Decodes (bytes : List UInt8) (v : Value) : Prop :=
  ∃ text, Utf8.strict? bytes = some text ∧ IsDocument text v

theorem decodes_ofString {text : String} {v : Value} :
    Decodes (Utf8.ofString text) v ↔ IsDocument text v := by
  constructor
  · rintro ⟨other, read, document⟩
    rwa [Utf8.ofString_injective (Utf8.strict?_eq_some.mp read)]
  · exact fun document => ⟨text, Utf8.strict?_eq_some.mpr rfl, document⟩

section Resolved

variable {active : List ActiveRule} {rules : RuleSet}

theorem hasNumbers_document (h : (ofActive active).2 = .ok rules) : rules.document.HasNumbers := by
  refine ⟨Value.membersHaveNumbers_of_forall fun m member => ?_, trivial⟩
  obtain ⟨⟨s, v⟩, entered, rfl⟩ := List.mem_map.mp member
  have configured := (mem_config h).mp entered
  obtain ⟨c, rfl, stands⟩ := stands_of_value h configured
  obtain ⟨rule, value, -, rendered, found⟩ := stands.value
  obtain rfl := Option.some.inj (found.symm.trans configured)
  exact hasNumbers_render rendered

/-- What is stored is read back as the configuration, and as nothing else. -/
theorem decodes_ofActive (h : (ofActive active).2 = .ok rules) {v : Value} :
    Decodes (Utf8.ofString rules.documentText) v ↔ v = rules.document := by
  have document := (Value.isDocument_compact (hasNumbers_document h)).append_newline
  rw [decodes_ofString]
  exact ⟨fun other => other.unique document, fun same => same ▸ document⟩

end Resolved

end RuleSet

end LintBridge
