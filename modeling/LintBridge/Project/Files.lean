import LintBridge.Project.Ignore
import LintBridge.SourceFile

/-! The style sheets of a project on disk. They are found by the suffixes of their names, outside of
directories that hold nothing of the project's own, and come in the order of their paths. Files in a
directory of tests, and files named as tests, are test files. -/

namespace LintBridge.Project

open LintBridge.Text

/-- Names of directories that hold nothing of the project's own. -/
def skippedNames : List String := [".git", "node_modules", "target"]

def testNames : List String := ["test", "tests"]

/-! ### Walking -/

/-- What a walk delivers: the names that lead to it from the root, and whether it is a regular file.
-/
structure Walked where
  names : List Name
  isFile : Bool
  deriving DecidableEq, Repr

/-- The path of what names lead to from a root. -/
def pathBelow (root : Path) (names : List Name) : Path :=
  if names = [] then root else root.join (Path.joinNames names)

def Walked.path (root : Path) (w : Walked) : Path := pathBelow root w.names

/-- The levels of the directories above a place, the nearest first. -/
def levelsAbove (tree : FileTree) (place : Place) : List IgnoreLevel :=
  (List.range place.length).reverse.map fun n => levelAt tree (place.take n)

/-- Whether a walk from a root sees what names lead to: it is not ignored, and not hidden unless a
list takes it back in. -/
def isSeen (tree : FileTree) (user : UserList) (root : Path) (top : Place) (names : List Name) :
    Bool :=
  let place := top ++ names
  match verdict? user (levelsAbove tree place) place (pathBelow root names)
    (tree.isDirAt place) with
  | some .ignored => false
  | some .kept => true
  | none => (names.getLast?.getD []).head? != some Path.dot

/-- The ways to what names lead to, and to the directories on the way to it. -/
def waysTo (names : List Name) : List (List Name) :=
  (List.range names.length).map fun n => names.take (n + 1)

/-- What a walk from a root delivers, in the order in which the tree keeps it. -/
def walk (tree : FileTree) (env : Environment) (root : Path) : List Walked :=
  match tree.locate root true with
  | .error _ => []
  | .ok top =>
    let user := userListOf tree env
    tree.entries.filterMap fun (place, e) =>
      let names := place.drop top.length
      if top.isPrefixOf place ∧ (waysTo names).all (isSeen tree user root top) then
        some ⟨names, e.isFile⟩
      else none

/-- Whether a name is that of a directory to be skipped. -/
def isSkipped (name : Name) : Bool := skippedNames.contains (Utf8.lossy name)

/-- The paths of the regular files that a walk delivers and to which no directory leads that is to
be skipped. -/
def filePaths (root : Path) (walked : List Walked) : List Path :=
  (walked.filter fun w => w.isFile && !w.names.any isSkipped).map (·.path root)

/-! ### Listing -/

/-- The suffix of a path, in lower case. -/
def suffix? (p : Path) : Option String := p.extension?.map fun n => asciiLower (Utf8.lossy n)

def isTestName (name : Name) : Bool := testNames.any (eqIgnoringAsciiCase (Utf8.lossy name))

/-- The components of a path after those of a directory, or all of them where the path does not
begin with the directory. -/
def componentsBelow (dir p : Path) : List Path.Component :=
  if dir.components.isPrefixOf p.components then p.components.drop dir.components.length
  else p.components

/-- Whether a component of a path is a directory of tests. -/
def isTestDir : Path.Component → Bool
  | .normal name => isTestName name
  | _ => false

/-- Whether a path below a root is that of a test: there is a directory of tests on the way, or
`test` stands before the suffix. -/
def isTest (root p : Path) : Bool :=
  let mark? := p.stem?.bind fun stem => (Path.splitExtension stem).2
  (componentsBelow root p).dropLast.any isTestDir ||
    mark?.any fun mark => eqIgnoringAsciiCase (Utf8.lossy mark) "test"

def fileAt? (root p : Path) : Option SourceFile :=
  (SourceFile.ofPath? p "css").map fun f =>
    { f with kind := if isTest root p then .test else .main }

def precedes (p q : Path) : Bool := p.compare q != .gt

/-- The style sheets among some files, in the order of their paths. -/
def listing (root : Path) (suffixes : List String) (paths : List Path) : List SourceFile :=
  ((paths.filter fun p => (suffix? p).any suffixes.contains).mergeSort precedes).filterMap
    (fileAt? root)

/-- The style sheets of a project, given what a walk from its root delivers. -/
def scan (root : Path) (suffixes : List String) (walked : List Walked) : List SourceFile :=
  listing root suffixes (filePaths root walked)

def scanTree (tree : FileTree) (env : Environment) (root : Path) (suffixes : List String) :
    List SourceFile :=
  scan root suffixes (walk tree env root)

/-- The text of a file: as UTF-8, or if another encoding is declared, as much of it as is UTF-8. -/
def readText (tree : FileTree) (file : SourceFile) : Except Fault String :=
  match file.path? with
  | none => .error .notLocal
  | some p =>
    match tree.read p with
    | .error e => .error e
    | .ok bytes =>
      if file.charset = .utf8 then (Utf8.strict? bytes).elim (.error .notText) .ok
      else .ok (Utf8.lossy bytes)

end LintBridge.Project
