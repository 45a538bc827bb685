import LintBridge.FileTree.Basic
import LintBridge.Glob.Pattern
import LintBridge.Settings.Expand
import LintBridge.Text.Blank
import LintBridge.Text.Lines

/-! Files that a project asks to leave alone. A directory may hold a list of patterns; a later line
overrules an earlier one, a list nearer to a file overrules one further away, and a line with an
exclamation mark takes files back in. Lists for the version control count only within a repository,
and not beyond the innermost one. -/

namespace LintBridge.Project

open LintBridge.Text

structure IgnoreRule where
  pattern : Glob.Regular
  keeps : Bool := false
  /-- Whether the line speaks of directories only. -/
  dirsOnly : Bool := false
  deriving Repr

inductive Verdict where
  | ignored
  | kept
  deriving DecidableEq, Repr

namespace IgnoreRule

/-- The pattern of a line without its last slash, before which a backslash counts for nothing, and
whether there was one. -/
def splitDirMark (s : List Char) : List Char × Bool :=
  match s.reverse with
  | '/' :: '\\' :: r => (r.reverse, true)
  | '/' :: r => (r.reverse, true)
  | _ => (s, false)

/-- The pattern that a line spells: without a slash in it, it matches at any depth, and two stars at
its end stand for what is in a directory. -/
def anchor (anchored : Bool) (s : List Char) : List Char :=
  let free := !anchored && !s.contains '/' && s != ['*', '*']
  let s := if free then '*' :: '*' :: '/' :: s else s
  if ['*', '*', '/'].isPrefixOf s.reverse then s ++ ['/', '*'] else s

/-- Reads a line that is not empty and no comment. -/
def ofPattern? (s : List Char) : Option IgnoreRule :=
  let escaped := ['\\', '!'].isPrefixOf s || ['\\', '#'].isPrefixOf s
  let keeps := !escaped && s.head? == some '!'
  let s := if escaped || keeps then s.drop 1 else s
  let anchored := s.head? == some '/'
  let s := if anchored && !escaped then s.drop 1 else s
  let (s, dirsOnly) := splitDirMark s
  (Glob.parse? (anchor anchored s)).map fun tokens =>
    { pattern := Glob.meaning tokens, keeps, dirsOnly }

/-- Reads a line. White space at its end does not count, unless a backslash stands before a last
blank. -/
def ofLine? (line : String) : Option IgnoreRule :=
  let s := line.toList
  if s.head? = some '#' then none
  else
    let s := if [' ', '\\'].isPrefixOf s.reverse then s else trimEndChars s
    if s = [] then none else ofPattern? s

/-- Reads a list. Byte order marks at its front do not count. -/
def ofBytes (bytes : List UInt8) : List IgnoreRule :=
  match textLines bytes with
  | [] => []
  | first :: rest =>
    let first := String.ofList (first.toList.dropWhile (· == '\uFEFF'))
    (first :: rest).filterMap ofLine?

def verdict? (rules : List IgnoreRule) (path : List UInt8) (isDir : Bool) : Option Verdict :=
  (rules.reverse.find? fun r => (isDir || !r.dirsOnly) && r.pattern.accepts path).map fun r =>
    if r.keeps then .kept else .ignored

end IgnoreRule

/-! ### Directories -/

/-- What a directory says of the files below it. -/
structure IgnoreLevel where
  place : Place
  general : List IgnoreRule
  tracked : List IgnoreRule
  /-- The list of the repository that is not part of it. -/
  local_ : List IgnoreRule
  /-- Whether the directory is that of a repository. -/
  isRepository : Bool

/-- The list in a file, if there is one. -/
def rulesAt (tree : FileTree) (path : Path) : List IgnoreRule :=
  match tree.read path with
  | .ok bytes => IgnoreRule.ofBytes bytes
  | .error _ => []

def levelAt (tree : FileTree) (place : Place) : IgnoreLevel :=
  let file (name : String) := (FileTree.pathOf place).joinString name
  { place
    general := rulesAt tree (file ".ignore")
    tracked := rulesAt tree (file ".gitignore")
    local_ := rulesAt tree (file ".git/info/exclude")
    isRepository := tree.has (file ".git") }

def pathFrom (above place : Place) : List UInt8 :=
  List.intercalate [Path.slash] (place.drop above.length)

/-- The levels, the nearest first, up to and with the first that is a repository. -/
def upToRepository : List IgnoreLevel → List IgnoreLevel
  | [] => []
  | l :: ls => if l.isRepository then [l] else l :: upToRepository ls

def verdictOf? (levels : List IgnoreLevel) (rules : IgnoreLevel → List IgnoreRule) (place : Place)
    (isDir : Bool) : Option Verdict :=
  levels.findSome? fun l => IgnoreRule.verdict? (rules l) (pathFrom l.place place) isDir

/-! ### Every project of a user -/

def isSpace (b : UInt8) : Bool := b = 32 || (9 ≤ b && b ≤ 13)

def dropSpace (s : List UInt8) : List UInt8 := s.dropWhile isSpace

/-- Whether no more than white space stands before the end of a line, be it this one or a later one.
-/
def endsLine (s : List UInt8) : Bool :=
  let space := s.takeWhile isSpace
  space.contains 10 || space.length == s.length

def quote : UInt8 := 34

/-- The word that a line ends in, without a quote after it. -/
def lastWord? (s : List UInt8) : Option (List UInt8) :=
  let word := s.takeWhile (!isSpace ·)
  let rest := s.dropWhile (!isSpace ·)
  let closed := (dropSpace rest).head? == some quote && endsLine ((dropSpace rest).drop 1)
  if 1 < word.length ∧ word.getLast? = some quote ∧ endsLine rest then some word.dropLast
  else if word ≠ [] ∧ (endsLine rest ∨ closed) then some word
  else none

/-- The value of the setting for a list of the user's own, at the front of a line. -/
def excludesFile? (s : List UInt8) : Option (List UInt8) :=
  let s := dropSpace s
  let name := (Utf8.strict? (s.take 12)).map asciiLower
  match name, dropSpace (s.drop 12) with
  | some "excludesfile", 61 :: value =>
    let value := dropSpace value
    let quoted := if value.head? = some quote then lastWord? (dropSpace (value.drop 1)) else none
    quoted.or (lastWord? value)
  | _, _ => none

/-- What stands after each line feed. -/
def afterLineFeeds : List UInt8 → List (List UInt8)
  | [] => []
  | b :: r => if b = 10 then r :: afterLineFeeds r else afterLineFeeds r

/-- The value of that setting in a configuration of the version control. -/
def excludesFileIn? (config : List UInt8) : Option String :=
  ((config :: afterLineFeeds config).findSome? excludesFile?).bind Utf8.strict?

/-- The directory for what a user configures. -/
def configHome? (env : Environment) : Option Path :=
  let named := (env.value? "XDG_CONFIG_HOME").filter (· ≠ [])
  (named.map Path.mk).or (env.home?.map (·.joinString ".config"))

/-- The path that a text names, with the home directory for each tilde. -/
def expandTildes (env : Environment) (s : String) : Path :=
  match env.home? with
  | none => .ofString s
  | some home =>
    .ofString (.ofList (s.toList.flatMap fun c => if c = '~' then home.display.toList else [c]))

/-- The list of the user's own, for every project. -/
def userList? (tree : FileTree) (env : Environment) : Option Path :=
  let configs := [env.home?.map (·.joinString ".gitconfig"),
    (configHome? env).map (·.joinString "git/config")]
  let named := configs.findSome? fun p? => p?.bind fun p =>
    (tree.read p).toOption.bind excludesFileIn?
  (named.map (expandTildes env)).or ((configHome? env).map (·.joinString "git/ignore"))

/-- The list of the user's own, with the working directory, from which it sees other paths. -/
structure UserList where
  rules : List IgnoreRule
  dir : Path

def userListOf (tree : FileTree) (env : Environment) : UserList where
  rules := ((userList? tree env).map (rulesAt tree)).getD []
  dir := FileTree.pathOf tree.workingDir

/-- Some octets without others at their front, if these stand there. -/
def withoutFront (front s : List UInt8) : List UInt8 :=
  if front.isPrefixOf s then s.drop front.length else s

/-- A path as it is seen from a directory: without the directory at its front and a slash after
that, where its octets begin so. A mere name is seen as it is. -/
def seenFrom (dir p : Path) : List UInt8 :=
  let s := withoutFront [Path.dot, Path.slash] p.bytes
  if s.contains Path.slash ∧ dir.bytes.isPrefixOf s then
    withoutFront [Path.slash] (s.drop dir.bytes.length)
  else s

/-- What the lists say of a place under a path, given the levels above it, the nearest first. -/
def verdict? (user : UserList) (levels : List IgnoreLevel) (place : Place) (path : Path)
    (isDir : Bool) : Option Verdict :=
  let inRepository := levels.any (·.isRepository)
  let near := if inRepository then upToRepository levels else []
  let own :=
    if inRepository then IgnoreRule.verdict? user.rules (seenFrom user.dir path) isDir else none
  (verdictOf? levels (·.general) place isDir).or <|
    (verdictOf? near (·.tracked) place isDir).or <|
      (verdictOf? near (·.local_) place isDir).or own

end LintBridge.Project
