/-! How a process ends. -/

namespace LintBridge.Execution

inductive Status where
  | exited (code : Nat)
  | signaled (signal : Nat)
  deriving DecidableEq, Repr

def signalNames : List String :=
  ["HUP", "INT", "QUIT", "ILL", "TRAP", "ABRT", "BUS", "FPE", "KILL", "USR1", "SEGV", "USR2",
    "PIPE", "ALRM", "TERM", "STKFLT", "CHLD", "CONT", "STOP", "TSTP", "TTIN", "TTOU", "URG",
    "XCPU", "XFSZ", "VTALRM", "PROF", "WINCH", "IO", "PWR", "SYS"]

def signalNumber? (name : String) : Option Nat :=
  (signalNames.findIdx? (· == name)).map (· + 1)

inductive Effect where
  | ends
  | stops
  | nothing
  deriving DecidableEq, Repr

/-- What a signal does to a process that does not handle it. -/
def effectOf (signal : Nat) : Effect :=
  if [17, 18, 23, 28].contains signal then .nothing
  else if [19, 20, 21, 22].contains signal then .stops
  else .ends

def Status.text : Status → String
  | .exited code => s!"exit status: {code}"
  | .signaled signal =>
    let name := (signalNames[signal - 1]?).elim "" fun n => s!" (SIG{n})"
    s!"signal: {signal}{name}"

end LintBridge.Execution
