import LintBridge.Text.Split
import LintBridge.Text.Utf8

/-! File paths as lists of octets, as a Unix system has them. Two spellings are one path when their
components agree: doubled and trailing slashes and components `.` after the first count for nothing,
and `..` is a component like any other. Paths are ordered by their components too. -/

namespace LintBridge

open LintBridge.Text

abbrev Name := List UInt8

/-- A file path: any list of octets. -/
structure Path where
  bytes : List UInt8
  deriving DecidableEq, Repr, Inhabited

namespace Path

def slash : UInt8 := 47

def dot : UInt8 := 46

def ofString (s : String) : Path := ⟨Utf8.ofString s⟩

/-- The path as a text, with a replacement character for octets that are not UTF-8. -/
def display (p : Path) : String := Utf8.lossy p.bytes

/-- The path as a text, if its octets are UTF-8. -/
def toString? (p : Path) : Option String := Utf8.strict? p.bytes

/-- The names between the slashes of a path. -/
def names (p : Path) : List Name := splitAtEach slash p.bytes

inductive Component where
  /-- The slash at the front of an absolute path. -/
  | root
  | here
  | up
  | normal (name : Name)
  deriving DecidableEq, Repr

def Component.bytes : Component → List UInt8
  | .root => [slash]
  | .here => [dot]
  | .up => [dot, dot]
  | .normal n => n

/-- The component that a name between slashes is, if it counts as one. -/
def Component.ofName? (n : Name) : Option Component :=
  if n = [] ∨ n = [dot] then none
  else if n = [dot, dot] then some .up
  else some (.normal n)

def isAbsolute (p : Path) : Bool := p.bytes.head? == some slash

def components (p : Path) : List Component :=
  let rest := p.names.filterMap Component.ofName?
  if p.isAbsolute then .root :: rest
  else if p.names.head? = some [dot] then .here :: rest
  else rest

def same (p q : Path) : Bool := p.components == q.components

def Component.rank : Component → Nat
  | .root => 0
  | .here => 1
  | .up => 2
  | .normal _ => 3

/-- The order of octet lists, by their first difference; a proper prefix comes first. -/
def compareBytes : List UInt8 → List UInt8 → Ordering
  | [], [] => .eq
  | [], _ :: _ => .lt
  | _ :: _, [] => .gt
  | a :: s, b :: t => (compare a.toNat b.toNat).then (compareBytes s t)

/-- The order of components: by kind, and names by their octets. -/
def Component.compare (a b : Component) : Ordering :=
  (Ord.compare a.rank b.rank).then (compareBytes a.bytes b.bytes)

/-- The order of component lists, by their first difference; a proper prefix comes first. -/
def compareComponents : List Component → List Component → Ordering
  | [], [] => .eq
  | [], _ :: _ => .lt
  | _ :: _, [] => .gt
  | a :: s, b :: t => (a.compare b).then (compareComponents s t)

/-- The order of paths, component by component. -/
def compare (p q : Path) : Ordering := compareComponents p.components q.components

/-- The octets of a path under a directory: an absolute path stands for itself, and any other is
written after the directory, with a slash between them unless the directory already ends in one. -/
def join (dir p : Path) : Path :=
  if p.isAbsolute then p
  else if dir.bytes = [] ∨ dir.bytes.getLast? = some slash then ⟨dir.bytes ++ p.bytes⟩
  else ⟨dir.bytes ++ slash :: p.bytes⟩

def joinString (dir : Path) (s : String) : Path := dir.join (ofString s)

def ofComponents : List Component → Path
  | [] => ⟨[]⟩
  | .root :: rest => ⟨slash :: (ofComponents rest).bytes⟩
  | [c] => ⟨c.bytes⟩
  | c :: rest => ⟨c.bytes ++ slash :: (ofComponents rest).bytes⟩

/-- The path without its last component, unless that is the root. -/
def parent? (p : Path) : Option Path :=
  match p.components.getLast? with
  | none | some .root => none
  | some _ => some (ofComponents p.components.dropLast)

/-- The last component, if it is a name. -/
def fileName? (p : Path) : Option Name :=
  match p.components.getLast? with
  | some (.normal n) => some n
  | _ => none

/-- What follows the last dot of a name and what stands before it; a name whose only dot is its
first character has no extension. -/
def splitExtension (n : Name) : Name × Option Name :=
  let tail := n.reverse.takeWhile (· != dot)
  match n.reverse.dropWhile (· != dot) with
  | _ :: before@(_ :: _) => (before.reverse, some tail.reverse)
  | _ => (n, none)

def extension? (p : Path) : Option Name := p.fileName?.bind fun n => (splitExtension n).2

/-- The file name without its last dot and what follows. -/
def stem? (p : Path) : Option Name := p.fileName?.map fun n => (splitExtension n).1

/-- What is left of the names between slashes once the given components have been read off. -/
def namesAfter? : List Component → List Name → Option (List Name)
  | [], names => some names
  | _ :: _, [] => none
  | c :: cs, n :: names =>
    match Component.ofName? n with
    | none => namesAfter? (c :: cs) names
    | some d => if c = d then namesAfter? cs names else none

def joinNames (names : List Name) : Path := ⟨List.intercalate [slash] names⟩

def isComponent (n : Name) : Bool := (Component.ofName? n).isSome

/-- The names up to the last one that is a component. -/
def dropTail (names : List Name) : List Name :=
  (names.reverse.dropWhile (!isComponent ·)).reverse

/-- The names from the first to the last one that is a component. -/
def trimNames (names : List Name) : List Name := dropTail (names.dropWhile (!isComponent ·))

/-- The path below a directory: what an absolute path says after the components of an absolute
directory that it starts with. Every path starts with the empty one, which takes nothing from its
front. -/
def below? (dir p : Path) : Option Path :=
  if p.isAbsolute then
    match dir.components with
    | [] => some ⟨slash :: (joinNames (dropTail p.names.tail)).bytes⟩
    | .root :: cs => (namesAfter? cs p.names).map (joinNames ∘ trimNames)
    | _ => none
  else none

end Path

end LintBridge
