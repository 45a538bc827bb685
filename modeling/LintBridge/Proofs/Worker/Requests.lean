import LintBridge.Proofs.Json.Printing
import LintBridge.Proofs.Json.Reading
import LintBridge.Proofs.Text.Utf8
import LintBridge.Worker.Exchange

/-! What is sent for an analysis.  The body is a JSON object with the path of the file, its text if
there is one, and the path of the configuration, each of them character by character, so that it
determines the request: `analyze_body`. -/

namespace LintBridge.Worker

open LintBridge.Json LintBridge.Text

/-- The object that stands for a request: the text of the file is null if it is not sent. -/
def requestValue (file : String) (content : Option String) (config : String) : Value :=
  .object [(some "filePath", .text file), (some "fileContent", content.elim .null .text),
    (some "configFile", .text config)]

/-- The paths of a request are valid UTF-8, and these texts are what they spell. -/
structure Spelled (r : Request) (file config : String) : Prop where
  file : Utf8.strict? r.file.bytes = some file
  config : Utf8.strict? r.config.bytes = some config

theorem display_of_strict {p : Path} {t : String} (h : Utf8.strict? p.bytes = some t) :
    p.display = t :=
  Utf8.lossy_of_strict? h

theorem path_eq_of_strict {p q : Path} {t : String} (hp : Utf8.strict? p.bytes = some t)
    (hq : Utf8.strict? q.bytes = some t) : p = q := by
  have same := (Utf8.strict?_eq_some.mp hp).trans (Utf8.strict?_eq_some.mp hq).symm
  cases p
  cases q
  exact congrArg Path.mk same

theorem Spelled.document {r : Request} {file config : String} (spelled : Spelled r file config) :
    Call.document r = requestValue file r.content config := by
  rw [Call.document, display_of_strict spelled.file, display_of_strict spelled.config]
  rfl

theorem hasNumbers_requestValue (file : String) (content : Option String) (config : String) :
    (requestValue file content config).HasNumbers := by
  cases content <;>
    simp [requestValue, Value.text, Value.HasNumbers, Value.MembersHaveNumbers]

theorem requestValue_injective {file file' config config' : String}
    {content content' : Option String}
    (h : requestValue file content config = requestValue file' content' config') :
    file = file' ∧ content = content' ∧ config = config' := by
  cases content <;> cases content' <;> simp [requestValue, Value.text] at h ⊢ <;> exact h

/-- The body of a request whose paths are valid UTF-8 is a document of the one object that has the
paths and the text, and null only where there is no text.  Two such requests with the same body are
the same. -/
theorem analyze_body {r : Request} {file config : String} (spelled : Spelled r file config) :
    (∀ v, IsDocument (Call.analyze r).body v ↔ v = requestValue file r.content config) ∧
    ∀ r' file' config', Spelled r' file' config' →
      (Call.analyze r').body = (Call.analyze r).body → r' = r := by
  have written : ∀ {r file config}, Spelled r file config →
      IsDocument (Call.analyze r).body (requestValue file r.content config) := by
    intro r file config spelled
    rw [Call.body, spelled.document]
    exact Value.isDocument_compact (hasNumbers_requestValue file r.content config)
  refine ⟨fun v => ⟨fun document => document.unique (written spelled), ?_⟩, ?_⟩
  · rintro rfl
    exact written spelled
  · intro r' file' config' spelled' same
    have document := written spelled'
    rw [same] at document
    obtain ⟨rfl, content, rfl⟩ := requestValue_injective (document.unique (written spelled))
    have files := path_eq_of_strict spelled'.file spelled.file
    have configs := path_eq_of_strict spelled'.config spelled.config
    obtain ⟨f, c, g⟩ := r
    obtain ⟨f', c', g'⟩ := r'
    dsimp only at files content configs
    rw [files, content, configs]

/-- Quotes, backslashes, control characters and other scripts reach the worker, and an empty text
does not become none. -/
theorem analyze_body_awkward :
    let r : Request := ⟨.ofString "/ä \"x\\y\"\n.css", some "\x01\t→😀\r\n", .ofString "/c.json"⟩
    let empty : Request := { r with content := some "" }
    (∀ v, IsDocument (Call.analyze r).body v ↔
      v = requestValue "/ä \"x\\y\"\n.css" (some "\x01\t→😀\r\n") "/c.json") ∧
    (Call.analyze empty).body ≠ (Call.analyze { r with content := none }).body := by
  intro r empty
  have spelled : ∀ content, Spelled { r with content } "/ä \"x\\y\"\n.css" "/c.json" := fun _ =>
    ⟨Utf8.strict?_eq_some.mpr rfl, Utf8.strict?_eq_some.mpr rfl⟩
  refine ⟨(analyze_body (spelled _)).1, fun same => ?_⟩
  have absent := (analyze_body (spelled none)).2 empty _ _ (spelled _) same
  cases congrArg Request.content absent

end LintBridge.Worker
