import LintBridge.Proofs.Text.Removal
import LintBridge.Proofs.Text.Trim
import LintBridge.Proofs.Worker.Analyses
import LintBridge.Proofs.Worker.Answers

/-! What the findings in an answer of a worker come to.  A syntax error among them, wherever it
stands, says that the file cannot be parsed, and then no other finding counts: `Verdict`.
`Supervised.answers` are the findings that a worker has answered with. -/

namespace LintBridge.Worker

open LintBridge.Text

variable {σ : Type}

/-! ### Verdicts -/

/-- A file cannot be parsed, as one of the findings for it says. -/
def HasSyntaxError (findings : List Diagnostic) : Prop := ∃ d ∈ findings, d.rule = "CssSyntaxError"

instance : DecidablePred HasSyntaxError := fun findings =>
  inferInstanceAs (Decidable (∃ d ∈ findings, d.rule = "CssSyntaxError"))

/-- What findings come to.  The first syntax error gives its line, and its text without the marks
in it and trimmed; without one they are kept as they are. -/
structure Verdict (findings : List Diagnostic) (outcome : Outcome) : Prop where
  failure : (∃ line message, outcome = .parseFailure line message) ↔ HasSyntaxError findings
  first : ∀ before d after, findings = before ++ d :: after → d.rule = "CssSyntaxError" →
    (∀ e ∈ before, e.rule ≠ "CssSyntaxError") →
    ∃ message rest, outcome = .parseFailure d.line message ∧
      Removes "(CssSyntaxError)".toList d.message.toList rest ∧ Trims rest message.toList
  passed : ¬ HasSyntaxError findings → outcome = .diagnostics findings

theorem outcomeOf_of_first {before after : List Diagnostic} {d : Diagnostic}
    (here : d.rule = "CssSyntaxError") (earlier : ∀ e ∈ before, e.rule ≠ "CssSyntaxError") :
    outcomeOf (before ++ d :: after) = .parseFailure d.line (syntaxText d.message) := by
  have found : (before ++ d :: after).find? (·.rule == syntaxRule) = some d := by
    refine List.find?_eq_some_iff_append.mpr ⟨by simp [here, syntaxRule], before, after, rfl, ?_⟩
    intro e member
    simpa [syntaxRule] using earlier e member
  simp only [outcomeOf, found]

theorem outcomeOf_of_not {findings : List Diagnostic} (h : ¬ HasSyntaxError findings) :
    outcomeOf findings = .diagnostics findings := by
  have absent : findings.find? (·.rule == syntaxRule) = none := by
    refine List.find?_eq_none.mpr fun d member same => h ⟨d, member, ?_⟩
    simpa [syntaxRule] using same
  simp only [outcomeOf, absent]

theorem outcomeOf_of_hasSyntaxError {findings : List Diagnostic} (h : HasSyntaxError findings) :
    ∃ line message, outcomeOf findings = .parseFailure line message := by
  have found : (findings.find? (·.rule == syntaxRule)).isSome = true := by
    obtain ⟨d, member, here⟩ := h
    exact List.find?_isSome.mpr ⟨d, member, by simp [here, syntaxRule]⟩
  obtain ⟨d, found⟩ := Option.isSome_iff_exists.mp found
  exact ⟨d.line, syntaxText d.message, by simp only [outcomeOf, found]⟩

theorem verdict_outcomeOf (findings : List Diagnostic) :
    Verdict findings (outcomeOf findings) where
  failure := by
    constructor
    · rintro ⟨line, message, failed⟩
      by_contra none
      rw [outcomeOf_of_not none] at failed
      cases failed
    · exact outcomeOf_of_hasSyntaxError
  first := by
    rintro before d after rfl here earlier
    refine ⟨_, _, outcomeOf_of_first here earlier,
      (removes_iff (by simp)).mpr rfl, trims_iff.mpr ?_⟩
    have mark : syntaxMark = "(CssSyntaxError)".toList := by simp [syntaxMark, syntaxRule]
    rw [syntaxText, String.toList_ofList, mark]
  passed := outcomeOf_of_not

/-! ### Answers -/

/-- The findings in an answer to an analysis, if it is one that is accepted. -/
def Answer.findings? : Answer → Option (List Diagnostic)
  | .reply ⟨status, some text⟩ =>
    if status = 200 then (Json.parse? text).bind Worker.findings? else none
  | _ => none

theorem Answer.findings?_eq_some {a : Answer} {findings : List Diagnostic} :
    a.findings? = some findings ↔
      ∃ text, a = .reply ⟨200, some text⟩ ∧ IsAnswer text findings := by
  match a with
  | .reply ⟨status, some text⟩ =>
    by_cases accepted : status = 200
    · subst accepted
      simp [findings?, isAnswer_iff]
    · simp [findings?, accepted]
  | .reply ⟨status, none⟩ | .failed | .unanswered => simp [findings?]

/-- An answer is taken for what its findings come to, and otherwise for an error. -/
theorem readReply_findings (request : Request) (a : Answer) :
    (readReply request a.reply?).toOption = a.findings?.map outcomeOf := by
  match a with
  | .reply ⟨status, some text⟩ =>
    by_cases accepted : status = 200
    · subst accepted
      cases read : (Json.parse? text).bind Worker.findings? <;>
        simp [Answer.reply?, Answer.findings?, readReply, readAnswer, read, Except.toOption]
    · simp [Answer.reply?, Answer.findings?, readReply, readAnswer, accepted, Except.toOption]
  | .reply ⟨status, none⟩ | .failed | .unanswered => rfl

/-- The findings that a worker has answered analyses with, and the files for which it did so. -/
def Supervised.answers (s : Supervised σ) : List (Path × List Diagnostic) :=
  s.analyses.filterMap fun a => a.2.findings?.map fun findings => (a.1.file, findings)

end LintBridge.Worker
