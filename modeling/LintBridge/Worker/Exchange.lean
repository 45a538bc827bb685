import LintBridge.Http.Response
import LintBridge.Issue
import LintBridge.Json.Printer
import LintBridge.Json.Reader
import LintBridge.Request
import LintBridge.Text.Excerpt
import LintBridge.Text.Remove
import LintBridge.Worker.Error

/-! The requests that a worker answers, and what its answers mean. A worker is asked whether it is
alive, to analyze a file, or to end. An analysis is answered by a JSON array of findings; a finding
of the rule for syntax errors means that the file could not be parsed, and then no other counts. -/

namespace LintBridge.Worker

open LintBridge.Json LintBridge.Text

inductive Call where
  | status
  | analyze (request : Request)
  | close
  deriving DecidableEq, Repr

namespace Call

def method : Call → String
  | status => "GET"
  | analyze _ | close => "POST"

def endpoint : Call → String
  | status => "status"
  | analyze _ => "analyze"
  | close => "close"

def document (r : Request) : Value :=
  .record [("filePath", .text r.file.display),
    ("fileContent", r.content.elim .null .text), ("configFile", .text r.config.display)]

def body : Call → String
  | analyze r => (document r).compact
  | status | close => ""

end Call

/-! ### Findings -/

def findingFields : List Field := [⟨"line", none⟩, ⟨"rule", none⟩, ⟨"text", none⟩]

def finding? (v : Value) : Option Diagnostic := do
  match ← fields? findingFields v with
  | [line, rule, text] => some ⟨← line.word?, ← rule.text?, ← text.text?⟩
  | _ => none

def findings? : Value → Option (List Diagnostic)
  | .array items => items.mapM finding?
  | _ => none

/-- The linter's key for findings that say that a file cannot be parsed. -/
def syntaxRule : String := "CssSyntaxError"

def syntaxMark : List Char := '(' :: (syntaxRule.toList ++ [')'])

/-- The text of a syntax error without its mark. -/
def syntaxText (text : String) : String := String.ofList (trimChars (remove syntaxMark text.toList))

/-- What findings say of a file: the first syntax error says that it cannot be parsed. -/
def outcomeOf (findings : List Diagnostic) : Outcome :=
  match findings.find? (·.rule == syntaxRule) with
  | some d => .parseFailure d.line (syntaxText d.message)
  | none => .diagnostics findings

/-! ### Answers -/

def aliveText : String := "OK!"

/-- Whether a worker that answers so is alive: the status of the answer does not count. -/
def isAlive (reply : Option Http.Reply) : Bool := reply.bind (·.text?) == some aliveText

def isClosing (reply : Option Http.Reply) : Bool :=
  match reply with
  | some r => 200 ≤ r.status && r.status < 300
  | none => false

def payloadLimit : Nat := 2000

def notFindings : String := "the body is not a list of findings"

def readAnswer (request : Request) (status : Nat) (text : String) : Except Error Outcome :=
  if status ≠ 200 then .error (.unexpectedStatus status request.file (excerpt text payloadLimit))
  else
    match (Json.parse? text).bind findings? with
    | some findings => .ok (outcomeOf findings)
    | none => .error (.malformed request.file (excerpt text payloadLimit) notFindings)

def readReply (request : Request) (reply : Option Http.Reply) : Except Error Outcome :=
  match reply with
  | some ⟨status, some text⟩ => readAnswer request status text
  | some ⟨_, none⟩ | none => .error (.transport (Call.analyze request).endpoint)

end LintBridge.Worker
