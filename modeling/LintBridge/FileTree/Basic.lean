import LintBridge.Path

/-! A tree of files. Every entry has a place, the names that lead to it from the root. A path leads
to a place by its components: `..` goes up, and a symbolic link stands for the path that it holds,
up to a number of links. -/

namespace LintBridge

open LintBridge.Text

abbrev Place := List Name

/-- The place that an absolute path without links or `..` leads to. -/
def Path.place (p : Path) : Place :=
  p.components.filterMap fun c => match c with
    | .normal n => some n
    | .root | .here | .up => none

inductive Entry where
  | file (bytes : List UInt8) (executable : Bool)
  | dir
  | link (target : Path)
  deriving DecidableEq, Repr

def Entry.isFile : Entry → Bool
  | .file _ _ => true
  | .dir | .link _ => false

/-- Why an operation on files is refused. -/
inductive Fault where
  | notFound
  | notADirectory
  | isADirectory
  | tooManyLinks
  | nameTooLong
  | exists
  | busy
  | denied
  | notAProgram
  /-- The path holds an octet that no path may hold. -/
  | badPath
  /-- The octets of a file are not UTF-8. -/
  | notText
  /-- The file is not a local one. -/
  | notLocal
  deriving DecidableEq, Repr

def Fault.message : Fault → String
  | .notFound => "No such file or directory (os error 2)"
  | .notADirectory => "Not a directory (os error 20)"
  | .isADirectory => "Is a directory (os error 21)"
  | .tooManyLinks => "Too many levels of symbolic links (os error 40)"
  | .nameTooLong => "File name too long (os error 36)"
  | .exists => "File exists (os error 17)"
  | .busy => "Device or resource busy (os error 16)"
  | .denied => "Permission denied (os error 13)"
  | .notAProgram => "Exec format error (os error 8)"
  | .badPath => "file name contained an unexpected NUL byte"
  | .notText => "stream did not contain valid UTF-8"
  | .notLocal => "not a local file"

/-- Files, directories and links by their places, and the directory that relative paths start from.
The root is a directory without an entry. -/
structure FileTree where
  entries : List (Place × Entry) := []
  workingDir : Place := []
  deriving Repr, Inhabited

namespace FileTree

def entry? (t : FileTree) (place : Place) : Option Entry :=
  if place = [] then some .dir else t.entries.lookup place

/-- The tree without what stands at a place. -/
def erase (t : FileTree) (place : Place) : FileTree :=
  { t with entries := t.entries.filter (·.1 != place) }

/-- The tree with an entry at a place, instead of what stood there. -/
def insert (t : FileTree) (place : Place) (e : Entry) : FileTree :=
  { t with entries := (place, e) :: (t.erase place).entries }

/-- The tree with an entry at a place, and with directories on the way to it. -/
def plant (t : FileTree) (place : Place) (e : Entry) : FileTree :=
  let parents := (List.range place.length).map place.take
  (parents.foldl (fun t dir => if (t.entry? dir).isSome then t else t.insert dir .dir) t).insert
    place e

def isDirAt (t : FileTree) (place : Place) : Bool := t.entry? place == some .dir

def nameLimit : Nat := 255

def pathLimit : Nat := 4095

def linkLimit : Nat := 40

/-- Follows components from a directory to the first link that is to be followed; where that leads
is given. The last component may be missing, and whether a link there is followed is for the caller
to say. -/
def walkOn (t : FileTree) (followLast : Bool)
    (follow : Place → List Path.Component → Except Fault Place) (at_ : Place) :
    List Path.Component → Except Fault Place
  | [] => .ok at_
  | .root :: rest => walkOn t followLast follow [] rest
  | .here :: rest => walkOn t followLast follow at_ rest
  | .up :: rest => walkOn t followLast follow at_.dropLast rest
  | .normal n :: rest =>
    let place := at_ ++ [n]
    if nameLimit < n.length then .error .nameTooLong
    else
      match t.entry? place with
      | none => if rest = [] then .ok place else .error .notFound
      | some .dir => walkOn t followLast follow place rest
      | some (.file _ _) => if rest = [] then .ok place else .error .notADirectory
      | some (.link target) =>
        if rest = [] ∧ !followLast then .ok place
        else follow at_ (target.components ++ rest)

/-- Goes on from a link, where only so many more links are followed. -/
def walkFrom (t : FileTree) (followLast : Bool) : Nat → Place → List Path.Component →
    Except Fault Place
  | 0, _, _ => .error .tooManyLinks
  | links + 1, at_, components => t.walkOn followLast (t.walkFrom followLast links) at_ components

/-- Follows components from a directory, by way of no more than a number of links. -/
def walk (t : FileTree) (followLast : Bool) (links : Nat) : Place → List Path.Component →
    Except Fault Place :=
  t.walkOn followLast (t.walkFrom followLast links)

/-- Whether a path says by its ending that it leads to a directory. -/
def asksForDir (p : Path) : Bool :=
  match p.bytes.reverse with
  | 47 :: _ => true
  | 46 :: 47 :: _ => true
  | _ => false

/-- The place that a path leads to, whether or not anything stands there. -/
def locate (t : FileTree) (p : Path) (followLast : Bool) : Except Fault Place :=
  if p.bytes.contains 0 then .error .badPath
  else if p.bytes = [] then .error .notFound
  else if pathLimit < p.bytes.length then .error .nameTooLong
  else do
    let place ← t.walk (followLast || asksForDir p) linkLimit t.workingDir p.components
    match asksForDir p, t.entry? place with
    | true, some (.file _ _) => .error .notADirectory
    | _, _ => .ok place

/-- What a path leads to, links followed. -/
def find (t : FileTree) (p : Path) : Except Fault Entry := do
  let place ← t.locate p true
  match t.entry? place with
  | some e => .ok e
  | none => .error .notFound

def isFile (t : FileTree) (p : Path) : Bool :=
  match t.find p with
  | .ok (.file _ _) => true
  | _ => false

def isDir (t : FileTree) (p : Path) : Bool :=
  match t.find p with
  | .ok .dir => true
  | _ => false

def has (t : FileTree) (p : Path) : Bool := (t.find p).isOk

def read (t : FileTree) (p : Path) : Except Fault (List UInt8) := do
  match ← t.find p with
  | .file bytes _ => .ok bytes
  | .dir | .link _ => .error .isADirectory

def readText (t : FileTree) (p : Path) : Except Fault String := do
  match Utf8.strict? (← t.read p) with
  | some s => .ok s
  | none => .error .notText

/-- The entries below a place, by the names that lead to them from there. -/
def below (t : FileTree) (place : Place) : List (Place × Entry) :=
  t.entries.filterMap fun (p, e) =>
    if place.isPrefixOf p ∧ p ≠ place then some (p.drop place.length, e) else none

def pathOf (place : Place) : Path :=
  match place with
  | [] => ⟨[Path.slash]⟩
  | _ => ⟨place.flatMap fun n => Path.slash :: n⟩

/-- The absolute path, without links, of what a path leads to. -/
def resolve (t : FileTree) (p : Path) : Except Fault Path := do
  let place ← t.locate p true
  match t.entry? place with
  | some _ => .ok (pathOf place)
  | none => .error .notFound

end FileTree

end LintBridge
