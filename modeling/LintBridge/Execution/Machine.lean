import LintBridge.Shell.Run
import LintBridge.Text.Split

/-! A machine on which processes can be started: its files, the variables that processes inherit,
and its programs. A program is named by a path, or found by its name in the directories of the
search path; a script is run by the interpreter that its first line names. -/

namespace LintBridge.Execution

open LintBridge.Text LintBridge.Shell

/-- What an executable does that is not a script. -/
inductive Program where
  | command (name : String)
  /-- A runtime: asked for its version it prints some octets and ends with a code, and else it runs
  the worker that it is given. -/
  | runtime (version : List UInt8) (code : Nat)
  | worker
  deriving DecidableEq, Repr

structure Machine where
  tree : FileTree
  vars : List (String × String) := []
  programs : List (Place × Program) := []

/-- What a process does once it has been started. -/
inductive Behaviour where
  | course (c : Course)
  /-- It is a worker, with some variables in its environment. -/
  | worker (vars : List (String × String))

inductive Refusal where
  /-- The program, an argument or a variable holds an octet that ends texts. -/
  | nul
  | fault (f : Fault)
  deriving DecidableEq, Repr

def Refusal.message : Refusal → String
  | .nul => "nul byte found in provided data"
  | .fault f => f.message

namespace Machine

/-! ### Laying out programs -/

def install (m : Machine) (place : Place) (p : Program) : Machine :=
  { m with tree := m.tree.plant place (.file [] true), programs := (place, p) :: m.programs }

def standardCommands : List String :=
  ["sh", "true", "false", "echo", "printf", "cat", "sleep", "kill", "test", "pwd", "touch", "mkdir",
    "rm"]

def standardDirs : List String := ["/bin", "/usr/bin"]

def standard (tree : FileTree) (vars : List (String × String)) : Machine :=
  standardDirs.foldl (fun m dir =>
    standardCommands.foldl (fun m name =>
      m.install ((Path.ofString dir).joinString name).place (.command name)) m)
    { tree, vars }

/-! ### Finding programs -/

/-- The directories of the search path, as variables name it. -/
def searchDirs (vars : List (String × String)) : List Path :=
  match vars.lookup "PATH" with
  | some path => (splitAtEach ':' path.toList).map fun dir => Path.ofString (String.ofList dir)
  | none => []

def isExecutable (m : Machine) (p : Path) : Bool :=
  match m.tree.find p with
  | .ok (.file _ executable) => executable
  | _ => false

def executableAt (m : Machine) (p : Path) : Except Fault Place := do
  let place ← m.tree.locate p true
  match m.tree.entry? place with
  | some (.file _ true) => .ok place
  | some _ => .error .denied
  | none => .error .notFound

/-- The first executable file of a name in some directories. A file that may not be executed is
passed over, though it decides what is wrong if there is no other. -/
def searchFor (m : Machine) (name : Path) : List Path → Except Fault Place
  | [] => .error .notFound
  | dir :: rest =>
    match m.executableAt (dir.join name) with
    | .ok place => .ok place
    | .error e =>
      match searchFor m name rest with
      | .ok place => .ok place
      | .error later => .error (if e = .denied then .denied else later)

def programAt (m : Machine) (vars : List (String × String)) (program : Path) :
    Except Fault Place :=
  if program.bytes = [] then .error .notFound
  else if program.bytes.contains Path.slash then m.executableAt program
  else m.searchFor program (searchDirs vars)

/-! ### Running them -/

/-- The interpreter that the first line of a script names, and the argument that the line has for
it. -/
def interpreter? : List UInt8 → Option (Path × List Value)
  | 35 :: 33 :: rest =>
    let line := (rest.takeWhile (· != 10)).dropWhile fun b => b == 32 || b == 9
    let path := line.takeWhile fun b => b != 32 && b != 9
    let arg := (line.drop path.length).dropWhile fun b => b == 32 || b == 9
    if path = [] then none else some (⟨path⟩, if arg = [] then [] else [arg])
  | _ => none

def startState (m : Machine) (vars : List (String × String)) (name : Value) : Shell.State :=
  { name, args := [], tree := m.tree, vars := vars.map fun v => (v.1.toList, value v.2) }

/-- What a program does that is not a script, under a name and with arguments. -/
def behaviourOf (m : Machine) (vars : List (String × String)) (name : Value)
    (args : List Value) : Program → Behaviour
  | .command command => .course (courseOf command args (m.startState vars name))
  | .worker => .worker vars
  | .runtime version code =>
    if args = [value "-v"] then
      .course ⟨[(⟨0⟩, .print .out version)], some (⟨0⟩, .exited code)⟩
    else .worker vars

def execute (m : Machine) (vars : List (String × String)) (place : Place) (name : Value)
    (args : List Value) : Except Fault Behaviour :=
  match m.programs.lookup place, m.tree.entry? place with
  | some program, _ => .ok (m.behaviourOf vars name args program)
  | none, some (.file bytes _) =>
    match interpreter? bytes with
    | none => .error .notAProgram
    | some (path, first) => do
      let place ← m.executableAt path
      match m.programs.lookup place with
      | some program => .ok (m.behaviourOf vars name (first ++ name :: args) program)
      | none => .error .notAProgram
  | none, _ => .error .denied

/-- A variable as a process reads it from the text `name=value`, in which the first `=` ends the
name. -/
def reread (v : String × String) : String × String :=
  let text := v.1.toList ++ '=' :: v.2.toList
  (String.ofList (text.takeWhile (· != '=')), String.ofList ((text.dropWhile (· != '=')).drop 1))

/-- The variables of a process that adds some to those it inherits. -/
def inherited (m : Machine) (added : List (String × String)) : List (String × String) :=
  added.reverse.map reread ++ m.vars

def hasNul (v : Value) : Bool := v.contains 0

def start (m : Machine) (program : Path) (args : List Value) (added : List (String × String)) :
    Except Refusal Behaviour :=
  let texts := added.flatMap fun v => [value v.1, value v.2]
  if (program.bytes :: (args ++ texts)).any hasNul then .error .nul
  else
    let vars := m.inherited added
    match m.programAt vars program with
    | .error f => .error (.fault f)
    | .ok place => (m.execute vars place program.bytes args).mapError .fault

end Machine

end LintBridge.Execution
