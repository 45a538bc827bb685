import LintBridge.FileTree.Write
import LintBridge.Execution.Course
import LintBridge.Shell.Value

/-! Running scripts. A run has a clock, which only sleeping moves, and yields the course of a
process: what the script prints, what it does to files, and how it ends. -/

namespace LintBridge.Shell

open LintBridge.Text LintBridge.Execution

inductive Sink where
  | channel (c : Channel)
  | file (place : Place)
  | keep
  | nowhere
  deriving DecidableEq, Repr

structure Streams where
  input : Value := []
  out : Sink := .channel .out
  err : Sink := .channel .err
  deriving DecidableEq, Repr

structure State where
  name : Value
  args : List Value
  vars : List (List Char × Value)
  status : Nat := 0
  streams : Streams := {}
  tree : FileTree
  clock : Duration := ⟨0⟩
  /-- What was done, the last act first. -/
  acts : List (Duration × Act) := []
  ignored : List Nat := []
  /-- What is run when a signal arrives, or at the end, which counts as the signal 0. -/
  traps : List (Nat × List Char) := []
  kept : Value := []

inductive Flow where
  | on
  | ends (status : Status)
  | never
  deriving DecidableEq, Repr

namespace State

def ownId : String := "4242"

def act (s : State) (a : Act) : State := { s with acts := (s.clock, a) :: s.acts }

def done (s : State) (status : Nat) : Flow × State := (.on, { s with status })

def setTree (s : State) (tree : FileTree) : State := { s with tree }.act (.files tree)

def write (s : State) (sink : Sink) (bytes : Value) : State :=
  if bytes = [] then s
  else
    match sink with
    | .nowhere => s
    | .keep => { s with kept := s.kept ++ bytes }
    | .channel c => s.act (.print c bytes)
    | .file place =>
      match s.tree.entry? place with
      | some (.file old executable) =>
        s.setTree (s.tree.insert place (.file (old ++ bytes) executable))
      | _ => s

def print (s : State) (bytes : Value) : State := s.write s.streams.out bytes

def complain (s : State) (status : Nat) (message : String) : Flow × State :=
  (s.write s.streams.err (value (message ++ "\n"))).done status

def fail (s : State) (status : Nat) (message : String) : Flow × State :=
  s.complain status s!"{Utf8.lossy s.name}: 1: {message}"

def param? (s : State) (name : List Char) : Option Value :=
  match name with
  | ['#'] => some (ofChars (natChars s.args.length))
  | ['?'] => some (ofChars (natChars s.status))
  | ['$'] => some (value ownId)
  | _ =>
    match decimalNat? name with
    | some 0 => some s.name
    | some (n + 1) => s.args[n]?
    | none => s.vars.lookup name

def set (s : State) (name : List Char) (v : Value) : State :=
  { s with vars := (name, v) :: s.vars.filter (·.1 != name) }

/-! ### Words -/

def extend (current : Option Value) (v : Value) : Option Value := some (current.getD [] ++ v)

def isSeparator (b : UInt8) : Bool := b == 32 || b == 9 || b == 10

/-- Adds a value that is split at white space: the finished fields and the current one. -/
def addSplit (fields : List Value) (current : Option Value) : Value → List Value × Option Value
  | [] => (fields, current)
  | b :: r =>
    if isSeparator b then addSplit (fields ++ current.toList) none r
    else addSplit fields (extend current [b]) r

/-- Adds the arguments, each in a field of its own. -/
def addArgs (fields : List Value) (current : Option Value) :
    List Value → List Value × Option Value
  | [] => (fields, current)
  | [a] => (fields, extend current a)
  | a :: rest => addArgs (fields ++ [current.getD [] ++ a]) (some []) rest

def addPart (s : State) (acc : List Value × Option Value) (p : Part) :
    List Value × Option Value :=
  let (fields, current) := acc
  match p with
  | .text text quoted =>
    if text = [] ∧ !quoted then acc else (fields, extend current (Utf8.encode text))
  | .value name other quoted =>
    let given := s.param? name
    let v := match other with
      | some o => if given.getD [] = [] then Utf8.encode o else given.getD []
      | none => given.getD []
    if quoted then (fields, extend current v) else addSplit fields current v
  | .script _ _ => acc
  | .output bytes quoted =>
    if quoted then (fields, extend current bytes) else addSplit fields current bytes
  | .sum e => (fields, extend current (sumOf (fun n => (s.param? n).getD []) e))
  | .all quoted =>
    if quoted then addArgs fields current s.args
    else s.args.foldl (fun acc a => addSplit (acc.1 ++ acc.2.toList) none a) acc

def fieldsOf (s : State) (w : Word) : List Value :=
  if w = [.text [] true, .all true] ∧ s.args = [] then []
  else
    let (fields, current) := w.foldl s.addPart ([], none)
    fields ++ current.toList

/-- The value that a word stands for where it is not split. -/
def valueOf (s : State) (w : Word) : Value :=
  List.intercalate [32] (s.fieldsOf w)

/-! ### Redirections -/

def nothing : Value := value "/dev/null"

/-- The place of a file to write to, made if it is missing. -/
def openFile (s : State) (mode : Mode) (target : Value) : Except Fault (Place × State) := do
  let place ← s.tree.locate ⟨target⟩ true
  match s.tree.entry? place with
  | some .dir | some (.link _) => .error .isADirectory
  | some (.file _ executable) =>
    if mode = .write then return (place, s.setTree (s.tree.insert place (.file [] executable)))
    else return (place, s)
  | none => return (place, s.setTree (s.tree.insert place (.file [] false)))

def setSink (s : State) (descriptor : Nat) (sink : Sink) : State :=
  if descriptor = 2 then { s with streams := { s.streams with err := sink } }
  else { s with streams := { s.streams with out := sink } }

def openError (mode : Mode) (path : Value) (reason : Fault) : String :=
  let text := match reason, mode with
    | .notFound, .read => "No such file"
    | .notFound, _ => "Directory nonexistent"
    | reason, _ => String.ofList (reason.message.toList.takeWhile (· != '(')).dropLast
  let verb := if mode = .read then "open" else "create"
  s!"cannot {verb} {Utf8.lossy path}: {text}"

def redirect (s : State) : Redirect → Except String State
  | .copy descriptor source =>
    .ok (s.setSink descriptor (if source = 2 then s.streams.err else s.streams.out))
  | .file descriptor mode target =>
    let path := s.valueOf target
    match mode with
    | .read =>
      if path = nothing then .ok { s with streams := { s.streams with input := [] } }
      else
        ((s.tree.read ⟨path⟩).mapError (openError mode path)).map fun input =>
          { s with streams := { s.streams with input } }
    | .write | .append =>
      if path = nothing then .ok (s.setSink descriptor .nowhere)
      else
        ((s.openFile mode path).mapError (openError mode path)).map fun (place, s) =>
          s.setSink descriptor (.file place)

def redirectAll (s : State) (redirects : List Redirect) : Except String State :=
  redirects.foldlM redirect s

def keeping (s : State) : State :=
  { s with kept := [], streams := { s.streams with out := .keep } }

/-- The state in which a script goes on after a process of its own, which leaves nothing behind but
files, output, time and its status. -/
def resume (s inner : State) : State :=
  { s with
    status := inner.status, clock := inner.clock, acts := inner.acts, kept := inner.kept
    tree := { inner.tree with workingDir := s.tree.workingDir } }

/-- The streams after a command with some redirections, which are its own. What it has read of the
input is gone, unless the input was its own too. -/
def streamsAfter (before after : Streams) (redirects : List Redirect) : Streams :=
  let own := redirects.any fun r => match r with
    | .file _ mode _ => mode == .read
    | .copy _ _ => false
  if own then before else { before with input := after.input }

/-! ### Commands that are built in or found in the path -/

def comparisonHolds (op a b : Value) : Bool :=
  match String.ofList (charsOf op) with
  | "=" => a = b
  | "!=" => a ≠ b
  | "-eq" => toInt a = toInt b
  | "-ne" => toInt a ≠ toInt b
  | "-lt" => toInt a < toInt b
  | "-le" => toInt a ≤ toInt b
  | "-gt" => toInt b < toInt a
  | "-ge" => toInt b ≤ toInt a
  | _ => false

/-- Whether a condition holds that is not negated. -/
def conditionHolds (s : State) : List Value → Bool
  | [a] => a ≠ []
  | [op, a] =>
    match String.ofList (charsOf op) with
    | "-n" => a ≠ []
    | "-z" => a = []
    | "-f" => s.tree.isFile ⟨a⟩
    | "-d" => s.tree.isDir ⟨a⟩
    | "-e" => s.tree.has ⟨a⟩
    | _ => false
  | [a, op, b] => comparisonHolds op a b
  | _ => false

def testHolds (s : State) : List Value → Bool
  | [] => false
  | a :: rest =>
    if a = value "!" ∧ rest ≠ [] then !(testHolds s rest) else s.conditionHolds (a :: rest)

def signalOf? (v : Value) : Option Nat :=
  let name := String.ofList (charsOf v)
  match decimalNat? (charsOf v) with
  | some n => some n
  | none =>
    (signalNumber? name).or (signalNumber? (String.ofList ((charsOf v).drop 3)))

def receive (s : State) (signal : Nat) : Flow × State :=
  if signal = 0 ∨ s.ignored.contains signal ∧ signal ≠ 9 ∧ signal ≠ 19 then s.done 0
  else
    match effectOf signal with
    | .ends => (.ends (.signaled signal), s)
    | .stops => (.never, s)
    | .nothing => s.done 0

def kill (s : State) (args : List Value) : Flow × State :=
  let (signal, targets) := match args with
    | flag :: name :: rest =>
      if flag = value "-s" then (signalOf? name, rest)
      else if flag.head? = some 45 then (signalOf? (flag.drop 1), name :: rest)
      else (some 15, args)
    | _ => (some 15, args)
  match signal, targets with
  | some n, [target] =>
    if target = value ownId then s.receive n else s.fail 1 "kill: No such process"
  | _, _ => s.fail 2 "kill: Illegal number"

/-- The span that a number of seconds is, which may have a fraction. -/
def seconds (v : Value) : Duration :=
  let s := charsOf v
  let whole := s.takeWhile Char.isDigit
  let fraction := ((s.drop (whole.length + 1)).takeWhile Char.isDigit ++
    List.replicate 9 '0').take 9
  ⟨natOfDigits whole * 1000000000 + natOfDigits fraction⟩

/-- The octets of files one after the other, or of the input, and what cannot be read. -/
def catAll (s : State) : List Value → Flow × State
  | [] =>
    { s.print s.streams.input with streams := { s.streams with input := [] } }.done 0
  | args => args.foldl (fun (acc : Flow × State) a =>
      match s.tree.read ⟨a⟩ with
      | .ok bytes => (acc.1, acc.2.print bytes)
      | .error _ => acc.2.complain 1 s!"cat: {Utf8.lossy a}: No such file or directory")
      (s.done 0)

def exportAll (s : State) (args : List Value) : State :=
  args.foldl (fun s a =>
    match charsOf a |>.dropWhile (· != '=') with
    | _ :: v => s.set ((charsOf a).takeWhile (· != '=')) (ofChars v)
    | [] => s) s

def unsetAll (s : State) (args : List Value) : State :=
  { s with vars := s.vars.filter fun v => !args.contains (ofChars v.1) }

/-- Gives the fields of a line to variables, the last of which takes the rest. -/
def assignFields (s : State) (line : Value) : List Value → State
  | [] => s
  | [name] =>
    let trimmed := ((line.dropWhile isSeparator).reverse.dropWhile isSeparator).reverse
    s.set (charsOf name) trimmed
  | name :: names =>
    let line := line.dropWhile isSeparator
    assignFields (s.set (charsOf name) (line.takeWhile (!isSeparator ·)))
      (line.dropWhile (!isSeparator ·)) names

def readLine (s : State) (names : List Value) : Flow × State :=
  let input := s.streams.input
  let line := input.takeWhile (· != 10)
  let rest := (input.dropWhile (· != 10)).drop 1
  let s := { s with streams := { s.streams with input := rest } }.assignFields line
    (names.filter (· ≠ value "-r"))
  s.done (if line.length < input.length then 0 else 1)

def goTo (s : State) (args : List Value) : Flow × State :=
  let target := args.head?.getD ((s.param? "HOME".toList).getD [])
  match s.tree.locate ⟨target⟩ true with
  | .ok place =>
    if s.tree.isDirAt place then
      { s with tree := { s.tree with workingDir := place } }.done 0
    else s.fail 2 s!"cd: can't cd to {Utf8.lossy target}"
  | .error _ => s.fail 2 s!"cd: can't cd to {Utf8.lossy target}"

def operands (args : List Value) : List Value := args.filter (·.head? ≠ some 45)

def touchAll (s : State) (args : List Value) : Flow × State :=
  ((operands args).foldl (fun s a => match s.openFile .append a with
    | .ok (_, s) => s
    | .error _ => s) s).done 0

def makeAll (s : State) (args : List Value) : Flow × State :=
  ((operands args).foldl (fun s a =>
    s.setTree ((s.tree.makeDirs FileTree.Refusals.none ⟨a⟩).final s.tree)) s).done 0

/-- Removes files, and directories with what is in them. -/
def removeAll (s : State) (args : List Value) : Flow × State :=
  ((operands args).foldl (fun s a => match s.tree.locate ⟨a⟩ false with
    | .ok place =>
      s.setTree { s.tree with entries := s.tree.entries.filter (!place.isPrefixOf ·.1) }
    | .error _ => s) s).done 0

def setTrap (s : State) (action : Value) (signals : List Value) : State :=
  let numbers := signals.filterMap fun v => if v = value "EXIT" then some 0 else signalOf? v
  let others := { s with traps := s.traps.filter (!numbers.contains ·.1) }
  if action = value "-" then { others with ignored := s.ignored.filter (!numbers.contains ·) }
  else if action = [] then { others with ignored := s.ignored ++ numbers }
  else { others with traps := numbers.map (·, (Utf8.lossy action).toList) ++ others.traps }

def exit (s : State) (args : List Value) : Flow × State :=
  match args with
  | [] => (.ends (.exited s.status), s)
  | code :: _ =>
    match decimalNat? (charsOf code) with
    | some n => (.ends (.exited (n % 256)), { s with status := n % 256 })
    | none => (.ends (.exited 2), (s.fail 2 s!"exit: Illegal number: {Utf8.lossy code}").2)

def setArgs (s : State) (args : List Value) : State :=
  if args.head? = some (value "--") then { s with args := args.drop 1 } else s

def runNamed (s : State) (name : String) (args : List Value) : Flow × State :=
  match name with
  | ":" | "true" | "export" | "umask" | "ulimit" | "wait" =>
    (if name = "export" then s.exportAll args else s).done 0
  | "false" => s.done 1
  | "exit" => s.exit args
  | "echo" =>
    let quiet := args.head? = some (value "-n")
    let text := charsOf (List.intercalate [32] (if quiet then args.drop 1 else args))
    let (text, ended) := unescape true (text.length + 1) text
    (s.print (ofChars (text ++ if quiet || ended then [] else ['\n']))).done 0
  | "printf" =>
    match args with
    | [] => s.fail 2 "printf: usage: printf format [arg ...]"
    | format :: rest =>
      (s.print (ofChars (formatAll (rest.length + 1) (charsOf format) rest))).done 0
  | "cat" => s.catAll args
  | "kill" => s.kill args
  | "sleep" =>
    let d := args.foldl (fun n a => n + (seconds a).nanos) 0
    { s with clock := ⟨s.clock.nanos + d⟩ }.done 0
  | "test" => s.done (if s.testHolds args then 0 else 1)
  | "[" => s.done (if s.testHolds args.dropLast then 0 else 1)
  | "shift" => { s with args := s.args.drop 1 }.done 0
  | "read" => s.readLine args
  | "cd" => s.goTo args
  | "unset" => (s.unsetAll args).done 0
  | "touch" => s.touchAll args
  | "mkdir" => s.makeAll args
  | "rm" => s.removeAll args
  | "set" => (s.setArgs args).done 0
  | "pwd" => (s.print ((FileTree.pathOf s.tree.workingDir).bytes ++ [10])).done 0
  | "trap" =>
    match args with
    | action :: signals => (s.setTrap action signals).done 0
    | [] => s.done 0
  | _ => s.fail 127 s!"{name}: not found"

def itemsOf (s : State) : Option (List Word) → List Value
  | none => s.args
  | some words => words.flatMap s.fieldsOf

/-- The script that an interpreter is to run, the name under which it runs, and its arguments: a
text that is given, or that of a file. Without either there is nothing to run. -/
def scriptOf (s : State) (name : Value) : List Value → Except Fault (Value × Value × List Value)
  | [] => .ok ([], name, [])
  | flag :: rest =>
    if flag = value "-c" then
      match rest with
      | [] => .ok ([], name, [])
      | script :: more => .ok (script, more.head?.getD name, more.drop 1)
    else if flag.head? = some 45 then scriptOf s name rest
    else (s.tree.read ⟨flag⟩).map fun script => (script, flag, rest)

/-- Why a command that is named by its path cannot be run, if it cannot. -/
def pathError? (s : State) (name : Value) : Option (Nat × String) :=
  if !name.contains Path.slash then none
  else
    match s.tree.find ⟨name⟩ with
    | .ok (.file _ true) => none
    | .ok _ => some (126, s!"{Utf8.lossy name}: Permission denied")
    | .error _ => some (127, s!"{Utf8.lossy name}: not found")

/-- Whether a value matches a pattern, whose characters stand for themselves where they are
quoted. -/
def fits : List (UInt8 × Bool) → Value → Bool
  | [], v => v = []
  | (p, quoted) :: ps, v =>
    if p = 42 ∧ !quoted then (List.range (v.length + 1)).any fun n => fits ps (v.drop n)
    else
      match v with
      | [] => false
      | b :: bs => (p = b ∨ p = 63 ∧ !quoted) && fits ps bs

def patternOf (s : State) (w : Word) : List (UInt8 × Bool) :=
  w.flatMap fun part =>
    let quoted := match part with
      | .text _ q | .value _ _ q | .script _ q | .output _ q | .all q => q
      | .sum _ => true
    (s.valueOf [part]).map (·, quoted)

def programName (v : Value) : String :=
  match (charsOf v).reverse.takeWhile (· != '/') with
  | [] => String.ofList (charsOf v)
  | backwards => String.ofList backwards.reverse

end State

/-! ### Scripts -/

mutual

/-- Runs a command. The fuel bounds the depth and the rounds of loops. -/
def run : Nat → Command → State → Flow × State
  | 0, _, s => (.never, s)
  | fuel + 1, c, s =>
    match c with
    | .skip => (.on, s)
    | .simple c => runSimple fuel c s
    | .seq a b =>
      match run fuel a s with
      | (.on, s) => run fuel b s
      | stopped => stopped
    | .andThen a b =>
      match run fuel a s with
      | (.on, s) => if s.status = 0 then run fuel b s else (.on, s)
      | stopped => stopped
    | .orElse a b =>
      match run fuel a s with
      | (.on, s) => if s.status = 0 then (.on, s) else run fuel b s
      | stopped => stopped
    | .negate a =>
      match run fuel a s with
      | (.on, s) => s.done (if s.status = 0 then 1 else 0)
      | stopped => stopped
    | .loop untilDone condition body =>
      match run fuel condition s with
      | (.on, s) =>
        if (s.status = 0) = untilDone then s.done 0
        else
          match run fuel body s with
          | (.on, s) => run fuel c s
          | stopped => stopped
      | stopped => stopped
    | .branch condition yes no =>
      match run fuel condition s with
      | (.on, s) => if s.status = 0 then run fuel yes { s with status := 0 } else
          run fuel no { s with status := 0 }
      | stopped => stopped
    | .choose word patterns yes no =>
      let (word, s) := runScripts fuel word s
      if patterns.any fun p => State.fits (s.patternOf p) (s.valueOf word) then run fuel yes s
      else run fuel no { s with status := 0 }
    | .pipe a b =>
      match run fuel a s.keeping with
      | (.never, after) => (.never, after)
      | (_, left) =>
        let streams := { s.streams with input := left.kept }
        let (flow, right) := run fuel b { s.resume left with kept := s.kept, streams }
        match flow with
        | .ends (.exited code) => (s.resume right).done code
        | flow => (flow, s.resume right)
    | .each name items body =>
      let (items, s) := match items with
        | some words =>
          let (words, s) := runAllScripts fuel words s
          (some words, s)
        | none => (none, s)
      runEach fuel name body (s.itemsOf items) s
    | .group own body redirects =>
      match s.redirectAll redirects with
      | .error message => s.fail 2 message
      | .ok inner =>
        let (flow, after) := run fuel body inner
        let streams := State.streamsAfter s.streams after.streams redirects
        match flow, own with
        | .on, false => (.on, { after with streams })
        | .on, true => (.on, { s.resume after with streams })
        | .ends (.exited code), true => { s.resume after with streams }.done code
        | flow, _ => (flow, after)
    | .beside a =>
      let (_, after) := run fuel a s
      if after.clock = s.clock then
        { s with tree := after.tree, acts := after.acts }.done 0
      else s.done 0

def runEach : Nat → List Char → Command → List Value → State → Flow × State
  | 0, _, _, _, s => (.never, s)
  | _ + 1, _, _, [], s => (.on, s)
  | fuel + 1, name, body, v :: vs, s =>
    match run fuel body (s.set name v) with
    | (.on, s) => runEach fuel name body vs s
    | stopped => stopped

/-- Runs the scripts in a word, and puts what they print in their place. -/
def runScripts : Nat → Word → State → Word × State
  | _, [], s => ([], s)
  | 0, w, s => (w, s)
  | fuel + 1, part :: rest, s =>
    match part with
    | .script text quoted =>
      match parse? text with
      | none => runScripts fuel rest s
      | some c =>
        let (flow, after) := run fuel c s.keeping
        let bytes := (after.kept.reverse.dropWhile (· == 10)).reverse
        let status := match flow with
          | .ends (.exited code) => code
          | _ => after.status
        let (rest, s) := runScripts fuel rest { s.resume after with kept := s.kept, status }
        (.output bytes quoted :: rest, s)
    | part =>
      let (rest, s) := runScripts fuel rest s
      (part :: rest, s)

def runAllScripts : Nat → List Word → State → List Word × State
  | _, [], s => ([], s)
  | 0, ws, s => (ws, s)
  | fuel + 1, w :: ws, s =>
    let (w, s) := runScripts fuel w s
    let (ws, s) := runAllScripts fuel ws s
    (w :: ws, s)

/-- Runs what is set for a signal, after which the script goes on. -/
def runTrap : Nat → Nat → Flow × State → Flow × State
  | 0, _, r => (.never, r.2)
  | fuel + 1, signal, (flow, s) =>
    match (s.traps.lookup signal).bind parse? with
    | none => (flow, s)
    | some c => run fuel c { s with traps := if signal = 0 then [] else s.traps }

def runSimple : Nat → Simple → State → Flow × State
  | 0, _, s => (.never, s)
  | fuel + 1, c, s =>
    let (words, s) := runAllScripts fuel c.words s
    let (values, s) := runAllScripts fuel (c.assigns.map (·.2)) s
    let c : Simple := { c with words, assigns := (c.assigns.map (·.1)).zip values }
    let assigned := c.assigns.foldl (fun s a => s.set a.1 (s.valueOf a.2)) s
    match assigned.redirectAll c.redirects with
    | .error message => s.fail 2 message
    | .ok inner =>
      let back (r : Flow × State) : Flow × State :=
        (r.1, { r.2 with streams := State.streamsAfter s.streams r.2.streams c.redirects })
      match c.words.flatMap inner.fieldsOf with
      | [] => back (inner.done (if c.assigns = [] then 0 else inner.status))
      | name :: args =>
        if name = value "exec" then
          match args with
          | [] => inner.done 0
          | name :: args =>
            match runProgram fuel name args inner with
            | (.on, s) => (.ends (.exited s.status), { s with traps := [] })
            | stopped => stopped
        else
          let (flow, after) := back (runProgram fuel name args inner)
          (flow, if c.assigns = [] then after else { after with vars := s.vars })

def runProgram : Nat → Value → List Value → State → Flow × State
  | 0, _, _, s => (.never, s)
  | fuel + 1, name, args, s =>
    match s.pathError? name, State.programName name with
    | some (status, message), _ => s.fail status message
    | none, "sh" => runInterpreter fuel name args s
    | none, command =>
      match s.runNamed command args with
      | (.ends (.signaled n), s) =>
        if (s.traps.lookup n).isSome then runTrap fuel n (.on, s) else (.ends (.signaled n), s)
      | r => r

def runInterpreter : Nat → Value → List Value → State → Flow × State
  | 0, _, _, s => (.never, s)
  | fuel + 1, name, args, s =>
    match s.scriptOf name args with
    | .error _ => s.complain 2 "sh: 0: cannot open script"
    | .ok (script, name, args) =>
      match parse? (Utf8.lossy script).toList with
      | none => s.complain 2 "sh: 1: Syntax error"
      | some c =>
        let (flow, after) := runScript fuel c { s with name, args, status := 0, traps := [] }
        let back := { s.resume after with streams := after.streams }
        match flow with
        | .on => (.on, back)
        | .ends (.exited code) => back.done code
        | .ends (.signaled n) => back.done (128 + n)
        | .never => (.never, back)

/-- Runs a script to its end, with what is set for that. -/
def runScript : Nat → Command → State → Flow × State
  | 0, _, s => (.never, s)
  | fuel + 1, c, s =>
    match run fuel c s with
    | (.never, s) => (.never, s)
    | (.ends (.signaled n), s) => (.ends (.signaled n), s)
    | (flow, s) =>
      match runTrap fuel 0 (flow, s) with
      | (.on, after) => (if flow = .on then .ends (.exited s.status) else flow, after)
      | stopped => stopped

end

def patience : Nat := 200000

/-- The course of a process that runs a built-in command or the interpreter of scripts itself. -/
def courseOf (name : String) (args : List Value) (start : State) : Course :=
  let script := if name = "sh" then start.scriptOf (value name) args else .error .notFound
  let (flow, s) :=
    match script with
    | .ok (script, name, args) =>
      match parse? (Utf8.lossy script).toList with
      | none => start.complain 2 "sh: 1: Syntax error"
      | some c => runScript patience c { start with name, args }
    | .error _ => runProgram patience (value name) args start
  let ending := match flow with
    | .on => some (s.clock, .exited s.status)
    | .ends status => some (s.clock, status)
    | .never => none
  ⟨s.acts.reverse, ending⟩

end LintBridge.Shell
