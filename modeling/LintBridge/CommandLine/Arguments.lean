import LintBridge.Path
import LintBridge.Report.Writer
import LintBridge.Text.Digit

/-! The arguments of the command line. An option is written `--name value` or `--name=value`; flags
have no value, and short ones may be written together. After `--` every argument is the directory. A
value is only looked at once the next option or the end shows that it is complete. -/

namespace LintBridge.CommandLine

open LintBridge.Text

structure Arguments where
  project : Path := Path.ofString "."
  config : Option Path := none
  bundleDir : Option Path := none
  failFast : Bool := false
  /-- A number of seconds that is not zero. -/
  timeout : Option Nat := none
  format : Report.Format := .text
  reports : List Path := []
  interactive : Bool := false
  verbose : Bool := false
  deriving DecidableEq, Repr, Inhabited

inductive Field where
  | project
  | config
  | bundleDir
  | failFast
  | timeout
  | format
  | report
  | interactive
  | verbose
  | help
  | version
  deriving DecidableEq, Repr

namespace Field

/-- The name of an option, without its hyphens. -/
def name : Field → String
  | project => ""
  | config => "config"
  | bundleDir => "bundle-dir"
  | failFast => "fail-fast"
  | timeout => "timeout"
  | format => "format"
  | report => "stylelint-report"
  | interactive => "interactive"
  | verbose => "verbose"
  | help => "help"
  | version => "version"

def placeholder? : Field → Option String
  | config | bundleDir | report => some "PATH"
  | timeout => some "SECS"
  | format => some "FORMAT"
  | project | failFast | interactive | verbose | help | version => none

def shown (f : Field) : String :=
  match f, f.placeholder? with
  | project, _ => "[PROJECT_DIR]"
  | _, some value => s!"--{f.name} <{value}>"
  | _, none => s!"--{f.name}"

def options : List Field :=
  [config, bundleDir, failFast, timeout, format, report, interactive, verbose, help, version]

def ofName? (name : String) : Option Field := options.find? (·.name == name)

def ofLetter? (c : Char) : Option Field := [('v', verbose), ('h', help), ('V', version)].lookup c

end Field

inductive UsageError where
  | unexpected (argument : String)
  | valueMissing (field : Field)
  | valueNotNeeded (field : Field) (value : String)
  | repeated (field : Field)
  | badNumber (field : Field) (value reason : String)
  | badChoice (field : Field) (value : String)
  deriving DecidableEq, Repr

def UsageError.message : UsageError → String
  | unexpected argument => s!"unexpected argument '{argument}' found"
  | valueMissing field => s!"a value is required for '{field.shown}' but none was supplied"
  | valueNotNeeded field value =>
    s!"unexpected value '{value}' for '{field.shown}' found; no more were expected"
  | repeated field => s!"the argument '{field.shown}' cannot be used multiple times"
  | badNumber field value reason => s!"invalid value '{value}' for '{field.shown}': {reason}"
  | badChoice field value => s!"invalid value '{value}' for '{field.shown}'"

/-- What arguments ask the program to do. -/
inductive Request where
  | run (a : Arguments)
  | help
  | version
  deriving DecidableEq, Repr

/-! ### Values -/

def secondsBound : Nat := Nat.pow 2 64

/-- Reads on in a number whose digits so far write `n`. Digits come one by one, so that of two
faults the first one counts. -/
def readDigits (n : Nat) : List Char → Except String Nat
  | [] => if n = 0 then .error "number would be zero for non-zero type" else .ok n
  | c :: r =>
    if !c.isDigit then .error "invalid digit found in string"
    else if secondsBound ≤ 10 * n + (c.toNat - 48) then
      .error "number too large to fit in target type"
    else readDigits (10 * n + (c.toNat - 48)) r

def readSeconds (s : String) : Except String Nat :=
  match s.toList with
  | [] => .error "cannot parse integer from empty string"
  | ['+'] => .error "invalid digit found in string"
  | '+' :: r => readDigits 0 r
  | r => readDigits 0 r

/-- The path that a value is, which must not be empty. -/
def readPath (field : Field) (value : String) : Except UsageError Path :=
  if value = "" then .error (.valueMissing field) else .ok (Path.ofString value)

def readFormat (value : String) : Except UsageError Report.Format :=
  match value with
  | "text" => .ok .text
  | "json" => .ok .json
  | "" => .error (.valueMissing .format)
  | _ => .error (.badChoice .format value)

def Arguments.set (a : Arguments) (field : Field) (value : String) :
    Except UsageError Arguments :=
  match field with
  | .project => (readPath field value).map fun project => { a with project }
  | .config => (readPath field value).map fun path => { a with config := some path }
  | .bundleDir => (readPath field value).map fun path => { a with bundleDir := some path }
  | .report => (readPath field value).map fun path => { a with reports := a.reports ++ [path] }
  | .timeout =>
    match readSeconds value with
    | .ok n => .ok { a with timeout := some n }
    | .error reason => .error (.badNumber field value reason)
  | .format => (readFormat value).map fun format => { a with format }
  | .failFast => .ok { a with failFast := true }
  | .interactive => .ok { a with interactive := true }
  | .verbose => .ok { a with verbose := true }
  | .help | .version => .ok a

/-! ### Reading -/

/-- A field whose value is not yet taken over. -/
structure Pending where
  field : Field
  value : Option String
  deriving DecidableEq, Repr

structure Reading where
  arguments : Arguments := {}
  seen : List Field := []
  pending : Option Pending := none
  deriving DecidableEq, Repr

inductive Stop where
  | error (e : UsageError)
  | help
  | version
  deriving DecidableEq, Repr

namespace Reading

/-- Takes over the value of a field. Only reports may be given more than once. -/
def accept (r : Reading) (field : Field) (value : String) : Except Stop Reading :=
  if r.seen.contains field ∧ field ≠ .report then .error (.error (.repeated field))
  else
    match r.arguments.set field value with
    | .ok arguments => .ok { r with arguments, seen := field :: r.seen }
    | .error e => .error (.error e)

def resolve (r : Reading) : Except Stop Reading :=
  match r.pending with
  | none => .ok r
  | some ⟨field, none⟩ => .error (.error (.valueMissing field))
  | some ⟨field, some value⟩ => { r with pending := none }.accept field value

def flag (r : Reading) (field : Field) : Except Stop Reading := do
  let r ← r.resolve
  match field with
  | .help => .error .help
  | .version => .error .version
  | _ => r.accept field ""

def letters (r : Reading) : List Char → Except Stop Reading
  | [] => .ok r
  | c :: rest =>
    match Field.ofLetter? c with
    | none => .error (.error (.unexpected s!"-{c}"))
    | some field => do letters (← r.flag field) rest

/-- Takes over an option by its name, with the value that is written with it, if there is one. -/
def option (r : Reading) (name : String) (value : Option String) : Except Stop Reading :=
  match Field.ofName? name with
  | none => .error (.error (.unexpected s!"--{name}"))
  | some field =>
    match field.placeholder?, value with
    | some _, some value => do (← r.resolve).accept field value
    | some _, none => do return { ← r.resolve with pending := some ⟨field, none⟩ }
    | none, some value => .error (.error (.valueNotNeeded field value))
    | none, none => r.flag field

/-- Takes over an argument that is no option: a value that is waited for, or the directory. -/
def plain (r : Reading) (ended : Bool) (argument : String) : Except Stop Reading :=
  match r.pending, ended with
  | some ⟨field, none⟩, false => .ok { r with pending := some ⟨field, some argument⟩ }
  | _, _ =>
    if r.seen.contains .project || r.pending.any (·.field == .project) then
      .error (.error (.unexpected argument))
    else do return { ← r.resolve with pending := some ⟨.project, some argument⟩ }

/-- Reads arguments; options have ended once `--` was read. -/
def all (r : Reading) (ended : Bool) : List String → Except Stop Reading
  | [] => r.resolve
  | argument :: rest =>
    match ended, argument.toList with
    | false, ['-', '-'] => all r true rest
    | false, '-' :: '-' :: text =>
      let name := String.ofList (text.takeWhile (· != '='))
      let value := match text.dropWhile (· != '=') with
        | _ :: value => some (String.ofList value)
        | [] => none
      do all (← r.option name value) false rest
    | false, '-' :: c :: cs => do all (← r.letters (c :: cs)) false rest
    | _, _ => do all (← r.plain ended argument) ended rest

end Reading

def parse (arguments : List String) : Except UsageError Request :=
  match Reading.all {} false arguments with
  | .ok r => .ok (.run r.arguments)
  | .error (.error e) => .error e
  | .error .help => .ok .help
  | .error .version => .ok .version

end LintBridge.CommandLine
