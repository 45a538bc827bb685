import LintBridge.Log
import LintBridge.Text.Blank
import LintBridge.Text.Lines

/-! What the worker writes to one of its output streams, read line by line as log entries: the
worker marks debug and warning lines by the word they start with. -/

namespace LintBridge.Worker

open LintBridge.Log LintBridge.Text

def afterLead? (lead : List Char) (s : List Char) : Option (List Char) :=
  if lead.isPrefixOf s then some (s.drop lead.length) else none

/-- The level and the text of a line: debug or warning if it starts with `DEBUG` or `WARN`, without
that word and the white space after it, and else the whole line as information. -/
def readLine (line : String) : Level × String :=
  match afterLead? "DEBUG".toList line.toList with
  | some rest => (.debug, String.ofList (trimStartChars rest))
  | none =>
    match afterLead? "WARN".toList line.toList with
    | some rest => (.warn, String.ofList (trimStartChars rest))
    | none => (.info, line)

/-- The log entries of a stream. Reading it ends at the first line that is not UTF-8. -/
def forward (stream : List UInt8) : List (Level × String) := (textLines stream).map readLine

end LintBridge.Worker
