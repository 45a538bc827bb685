import LintBridge.Json.Reader
import LintBridge.Settings.Expand
import LintBridge.Worker.Workshop

/-! The machine on which the program runs, as a JSON text describes it: an object whose members are
all optional. `files` has the texts of files by their paths, `environment` the values of variables
by their names, `directory` is the working directory, `runtime` what the runtime says of its
version, and `answers` holds the bodies by which the worker answers analyses. -/

namespace LintBridge.CommandLine

open LintBridge.Text LintBridge.Json LintBridge.Worker

structure Site where
  directory : Path := Path.ofString "/work"
  files : List (String × String) := []
  environment : List (String × String) := []
  runtime : String := "v20.0.0"
  answers : List String := []
  deriving DecidableEq, Repr, Inhabited

namespace Site

def fields : List Json.Field :=
  [⟨"directory", some (.text "/work")⟩, ⟨"files", some (.object [])⟩,
    ⟨"environment", some (.object [])⟩, ⟨"runtime", some (.text "v20.0.0")⟩,
    ⟨"answers", some (.array [])⟩]

def texts? : Value → Option (List (String × String))
  | .object members => members.mapM fun m => do return (← m.1, ← m.2.text?)
  | _ => none

def items? : Value → Option (List String)
  | .array items => items.mapM Value.text?
  | _ => none

def ofValue? (v : Value) : Option Site := do
  match ← fields? fields v with
  | [directory, files, environment, runtime, answers] =>
    return { directory := Path.ofString (← directory.text?), files := ← texts? files,
             environment := ← texts? environment, runtime := ← runtime.text?,
             answers := ← items? answers }
  | _ => none

/-- The machine that a text describes. An empty text describes one without files. -/
def ofText? (text : String) : Option Site :=
  if text = "" then some {} else (Json.parse? text).bind ofValue?

/-- The place of a path, which is below the working directory unless it is absolute. -/
def placeOf (s : Site) (path : String) : Place := (s.directory.joinString path).place

def tree (s : Site) : FileTree :=
  let start : FileTree := { workingDir := s.directory.place }
  s.files.foldl (fun t f => t.plant (s.placeOf f.1) (.file (Utf8.ofString f.2) false))
    (start.plant s.directory.place .dir)

def runtimePath : Path := Path.ofString "/usr/bin/node"

/-- The variables of a machine, with a search path. -/
def vars (s : Site) : List (String × String) :=
  s.environment ++ [("PATH", "/usr/bin:/bin")]

def surroundings (s : Site) : Environment := { vars := s.environment }

def workshop (s : Site) : Workshop where
  machine := (Execution.Machine.standard s.tree s.vars).install runtimePath.place
    (.runtime (Utf8.ofString s.runtime) 0)
  plans := [{ answers := s.answers.map fun body => (200, body) }]

end Site

end LintBridge.CommandLine
