import LintBridge.CommandLine.Run
import LintBridge.CommandLine.Site

/-! The command line. Standard input describes the machine; the report goes to standard output, the
log and errors to standard error. -/

namespace LintBridge

/-- The rest of an input, after a text that was read before. -/
partial def readRest (input : IO.FS.Stream) (before : String) : IO String := do
  let line ← input.getLine
  if line.isEmpty then return before else readRest input (before ++ line)

def showOutcome (outcome : CommandLine.Outcome) : IO Unit := do
  for record in outcome.logs do
    IO.eprintln s!"{record.level.name} {record.origin.name}: {record.line}"
  IO.print outcome.stdout
  IO.eprint outcome.error

end LintBridge

open LintBridge in
def main (arguments : List String) : IO UInt32 := do
  match CommandLine.Site.ofText? (← readRest (← IO.getStdin) "") with
  | none =>
    IO.eprintln "standard input does not describe a machine"
    return 2
  | some site =>
    let (outcome, _) :=
      CommandLine.run Worker.Workshop.system site.surroundings arguments site.workshop
    showOutcome outcome
    return outcome.exit.toUInt32
