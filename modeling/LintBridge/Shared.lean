/-! Handles on shared values. A clone of a handle shows the same value as the handle it was cloned
from, whoever changes it; a fresh handle has a value of its own. -/

namespace LintBridge

/-- Values, and handles on them: each handle is the place of its value. -/
structure Shared (α : Type) where
  cells : List α
  handles : List Nat
  deriving Repr

namespace Shared

def single (a : α) : Shared α := ⟨[a], [0]⟩

def get? (s : Shared α) (h : Nat) : Option α := s.handles[h]?.bind fun cell => s.cells[cell]?

def modify (s : Shared α) (h : Nat) (f : α → α) : Shared α :=
  match s.handles[h]? with
  | some cell => { s with cells := s.cells.modify cell f }
  | none => s

def clone (s : Shared α) (h : Nat) : Shared α :=
  match s.handles[h]? with
  | some cell => { s with handles := s.handles ++ [cell] }
  | none => s

def fresh (s : Shared α) (a : α) : Shared α :=
  ⟨s.cells ++ [a], s.handles ++ [s.cells.length]⟩

/-- What the handles show, in the order in which they were made. -/
def views (s : Shared α) : List α := s.handles.filterMap fun cell => s.cells[cell]?

end Shared

end LintBridge
