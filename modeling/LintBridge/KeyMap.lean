import LintBridge.Path

/-! Maps from texts to values.  The values are kept in the order of their keys, which is that of the
octets, and a value that is put under a key takes the place of the one that stands there. -/

namespace LintBridge

open LintBridge.Text

/-- Values under keys, in the order of the keys. -/
structure KeyMap (α : Type) where
  entries : List (String × α) := []
  deriving Repr

namespace KeyMap

variable {α : Type}

def insertEntry (key : String) (value : α) : List (String × α) → List (String × α)
  | [] => [(key, value)]
  | (other, held) :: rest =>
    match Path.compareBytes (Utf8.ofString key) (Utf8.ofString other) with
    | .lt => (key, value) :: (other, held) :: rest
    | .eq => (key, value) :: rest
    | .gt => (other, held) :: insertEntry key value rest

def insert (m : KeyMap α) (key : String) (value : α) : KeyMap α :=
  ⟨insertEntry key value m.entries⟩

def get? (m : KeyMap α) (key : String) : Option α := m.entries.lookup key

def isEmpty (m : KeyMap α) : Bool := m.entries.isEmpty

def size (m : KeyMap α) : Nat := m.entries.length

end KeyMap

end LintBridge
