import LintBridge.FileTree.Basic
import LintBridge.Log

/-! Replacing a file as a whole. The new octets go to a staging file beside the target, which then
takes the place of the target in one step; missing directories are made before. Any step may be
refused. A write keeps every state that the tree goes through, so that it can be said what a reader
sees while it goes on. -/

namespace LintBridge.FileTree

/-- A step of a write, as it can be refused. -/
inductive Operation where
  | makeDir (place : Place)
  | createStaging (place : Place)
  /-- More octets are written, after a number of them that have been. -/
  | writeStaging (place : Place) (written : Nat)
  | syncStaging (place : Place)
  | rename (source target : Place)
  deriving DecidableEq, Repr

/-- Which steps the system refuses, beside those that the tree itself does not allow. -/
abbrev Refusals := Operation → Option Fault

/-- A system that refuses nothing on its own. -/
def Refusals.none : Refusals := fun _ => .none

/-- What a write meets with, beside the tree. -/
structure Conditions where
  refusals : Refusals := Refusals.none
  /-- The names that are drawn for a staging file until one is free. -/
  draws : Nat → Name := fun n => Text.Utf8.ofString s!".tmp{n}"
  /-- How many of the octets after the next one are written together with it. -/
  portion : List UInt8 → Nat := List.length

/-- The states of a tree during some steps, the last one first, and what came of them. -/
structure Steps (α : Type) where
  states : List FileTree
  result : Except Fault α

/-- The state in which steps leave a tree that was in a state before. -/
def Steps.final (s : Steps α) (before : FileTree) : FileTree := s.states.head?.getD before

def placeOfNewDir (t : FileTree) (p : Path) : Except Fault Place := do
  let place ← t.locate p false
  match p.components.getLast? with
  | some (.normal _) => if (t.entry? place).isSome then .error .exists else .ok place
  | _ => .error .exists

def makeDir (refusals : Refusals) (t : FileTree) (p : Path) : Except Fault FileTree := do
  let place ← t.placeOfNewDir p
  match refusals (.makeDir place) with
  | some e => .error e
  | none => .ok (t.insert place .dir)

/-- Makes the directory that a path names, given the ways to the directories above it, the nearest
first: each that is missing is made as well. -/
def makeDirsFrom (refusals : Refusals) (t : FileTree) : List Path → Steps Unit
  | [] => ⟨[], .error .notFound⟩
  | p :: above =>
    match t.makeDir refusals p with
    | .ok made => ⟨[made], .ok ()⟩
    | .error .notFound =>
      if above = [] then ⟨[], .error .notFound⟩
      else
        let parents := makeDirsFrom refusals t above
        match parents.result with
        | .error e => ⟨parents.states, .error e⟩
        | .ok () =>
          let t := parents.final t
          match t.makeDir refusals p with
          | .ok made => ⟨made :: parents.states, .ok ()⟩
          | .error e => ⟨parents.states, if t.isDir p then .ok () else .error e⟩
    | .error e => ⟨[], if t.isDir p then .ok () else .error e⟩

/-- A path, its parent, and so on up to the last one that is not empty. -/
def ancestors (p : Path) : List Path :=
  (List.range (p.components.length + 1)).filterMap fun n =>
    let kept := p.components.take (p.components.length - n)
    if kept = [] then none else some (Path.ofComponents kept)

def makeDirs (refusals : Refusals) (t : FileTree) (p : Path) : Steps Unit :=
  makeDirsFrom refusals t (p :: (ancestors p).drop 1)

/-- How many names are drawn for a staging file before it is given up. -/
def drawLimit : Nat := 65536

/-- The first name that is free in a directory among those that are drawn in a number of tries. -/
def drawName? (t : FileTree) (dir : Place) (draws : Nat → Name) : Nat → Option Name
  | 0 => none
  | tries + 1 =>
    if (t.entry? (dir ++ [draws 0])).isNone then some (draws 0)
    else drawName? t dir (fun n => draws (n + 1)) tries

/-- The place at which a file may take the place of what a path names: a link is replaced itself. -/
def placeToReplace (t : FileTree) (p : Path) : Except Fault Place := do
  let place ← t.locate p false
  match p.components.getLast? with
  | some (.normal _) =>
    if asksForDir p then .error .notADirectory
    else if t.isDirAt place then .error .isADirectory
    else .ok place
  | _ => .error .busy

/-- The directory of a path: its parent, or the working directory if it has no other. -/
def directoryOf (p : Path) : Path :=
  match p.parent? with
  | some d => if d.bytes = [] then Path.ofString "." else d
  | none => Path.ofString "."

/-- Writes octets to a staging file after those that it holds, some at a time. -/
def fillStaging (c : Conditions) (t : FileTree) (staging : Place) (written : List UInt8) :
    List UInt8 → Steps Unit
  | [] => ⟨[], .ok ()⟩
  | b :: rest =>
    match c.refusals (.writeStaging staging written.length) with
    | some e => ⟨[], .error e⟩
    | none =>
      let longer := written ++ b :: rest.take (c.portion rest)
      let later := fillStaging c t staging longer (rest.drop (c.portion rest))
      ⟨later.states ++ [t.insert staging (.file longer false)], later.result⟩
termination_by octets => octets.length
decreasing_by simp only [List.length_drop, List.length_cons]; omega

/-- Makes a staging file, fills it, and puts it at a target. -/
def useStaging (c : Conditions) (t : FileTree) (staging : Place) (target : Path)
    (bytes : List UInt8) : Steps Unit :=
  let filled := fillStaging c t staging [] bytes
  let states := filled.states ++ [t.insert staging (.file [] false)]
  let written := t.insert staging (.file bytes false)
  match filled.result with
  | .error e => ⟨states, .error e⟩
  | .ok () =>
    match c.refusals (.syncStaging staging) with
    | some e => ⟨states, .error e⟩
    | none =>
      match written.placeToReplace target with
      | .error e => ⟨states, .error e⟩
      | .ok place =>
        match c.refusals (.rename staging place) with
        | some e => ⟨states, .error e⟩
        | none => ⟨t.insert place (.file bytes false) :: states, .ok ()⟩

/-- Puts octets at a target by way of a staging file in a directory. A staging file that does not
get there is removed. -/
def replaceVia (c : Conditions) (t : FileTree) (dir : Place) (target : Path)
    (bytes : List UInt8) : Steps Unit :=
  match t.drawName? dir c.draws drawLimit with
  | none => ⟨[], .error .exists⟩
  | some name =>
    let staging := dir ++ [name]
    match c.refusals (.createStaging staging) with
    | some e => ⟨[], .error e⟩
    | none =>
      let used := t.useStaging c staging target bytes
      match used.result with
      | .error e => ⟨t :: used.states, .error e⟩
      | .ok () => used

/-- Replaces what a path names by a file with the given octets. -/
def replace (c : Conditions) (t : FileTree) (target : Path) (bytes : List UInt8) : Steps Unit :=
  let dir := directoryOf target
  let made := t.makeDirs c.refusals dir
  match made.result with
  | .error e => ⟨made.states, .error e⟩
  | .ok () =>
    let t := made.final t
    match t.locate dir true with
    | .error e => ⟨made.states, .error e⟩
    | .ok place =>
      if t.isDirAt place then
        let written := t.replaceVia c place target bytes
        ⟨written.states ++ made.states, written.result⟩
      else ⟨made.states, .error .notADirectory⟩

/-! ### The whole write -/

/-- The record about a directory that could not be synced. That only matters if the power fails. -/
def syncFailure (dir : Path) (e : Fault) : Log.Record :=
  { level := .debug, origin := .files, text := "Directory sync failed: ", cause := e.message,
    fields := [("dir", .text dir.display)] }

def replacedRecord (target : Path) (count : Nat) : Log.Record :=
  { level := .debug, origin := .files, text := "Replaced document",
    fields := [("path", .text target.display), ("bytes", .number count)] }

/-- The steps of a write, and what it logs. -/
structure Replacement extends Steps Unit where
  logs : List Log.Record

/-- Replaces a file, and syncs its directory if that has come about. Why the directory could not be
synced is logged, and does not matter otherwise. -/
def replaceSynced (c : Conditions) (unsynced : Option Fault) (t : FileTree) (target : Path)
    (bytes : List UInt8) : Replacement :=
  let steps := t.replace c target bytes
  let logs :=
    match steps.result with
    | .error _ => []
    | .ok () =>
      (unsynced.map (syncFailure (directoryOf target))).toList ++
        [replacedRecord target bytes.length]
  { steps with logs }

/-- The tree after a write, and what came of it. -/
def write (t : FileTree) (target : Path) (bytes : List UInt8) : FileTree × Except Fault Unit :=
  let steps := t.replaceSynced {} none target bytes
  (steps.final t, steps.result)

end LintBridge.FileTree
