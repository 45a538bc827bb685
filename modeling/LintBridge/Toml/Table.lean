import LintBridge.Toml.Scalar

/-! Tables while a document is read. How a table came to be decides who may add to it: a table with
a header of its own, one that only the header of a table below it implies, or one that dotted keys
made. -/

namespace LintBridge.Toml

inductive Origin where
  | header
  | implied
  | dotted
  deriving DecidableEq, Repr

/-- What a key stands for while a document is read. -/
inductive Node where
  | value (v : Value)
  | table (origin : Origin) (members : List (String × Node))
  /-- An array of tables, of which the last is open to additions. -/
  | tables (items : List (List (String × Node)))
  deriving Inhabited

abbrev Members := List (String × Node)

def Members.replace (members : Members) (key : String) (node : Node) : Members :=
  members.map fun m => if m.1 == key then (key, node) else m

def Members.add? (members : Members) (key : String) (node : Node) : Option Members :=
  if (members.lookup key).isSome then none else some (members ++ [(key, node)])

/-- Changes the table at the end of a path. Tables that are missing on the way are implied. -/
def Members.within? (change : Members → Option Members) : List String → Members → Option Members
  | [], members => change members
  | key :: path, members =>
    match members.lookup key with
    | none => do
      let inner ← within? change path []
      some (members ++ [(key, .table .implied inner)])
    | some (.table origin inner) => do
      let inner ← within? change path inner
      some (members.replace key (.table origin inner))
    | some (.tables items) =>
      match items.reverse with
      | last :: before => do
        let last ← within? change path last
        some (members.replace key (.tables (before.reverse ++ [last])))
      | [] => none
    | some (.value _) => none

/-- Opens the table that a header names: a new one, or one that was only implied. -/
def Members.openTable? (key : String) (members : Members) : Option Members :=
  match members.lookup key with
  | none => some (members ++ [(key, .table .header [])])
  | some (.table .implied inner) => some (members.replace key (.table .header inner))
  | some _ => none

def Members.openItem? (key : String) (members : Members) : Option Members :=
  match members.lookup key with
  | none => some (members ++ [(key, .tables [[]])])
  | some (.tables items) => some (members.replace key (.tables (items ++ [[]])))
  | some _ => none

/-- Gives a dotted key a value. The tables on the way must have no header of their own. -/
def Members.assign? (v : Value) (key : String) : List String → Members → Option Members
  | [], members => members.add? key (.value v)
  | first :: path, members =>
    match members.lookup first with
    | none => do
      let inner ← assign? v key path []
      some (members ++ [(first, .table .dotted inner)])
    | some (.table origin inner) =>
      if origin = .header then none
      else do
        let inner ← assign? v key path inner
        some (members.replace first (.table origin inner))
    | some _ => none

mutual

/-- The value of a node once the document is read. -/
def Node.toValue : Node → Value
  | .value v => v
  | .table _ members => .table (membersToValues members)
  | .tables items => .array (itemsToValues items)

/-- The values of members once the document is read. -/
def membersToValues : List (String × Node) → List (String × Value)
  | [] => []
  | m :: ms => (m.1, m.2.toValue) :: membersToValues ms

/-- The values of an array of tables once the document is read. -/
def itemsToValues : List (List (String × Node)) → List Value
  | [] => []
  | t :: ts => .table (membersToValues t) :: itemsToValues ts

end

end LintBridge.Toml
