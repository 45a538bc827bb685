import LintBridge.Path

/-! The environment of the program, and references to it in settings: `${NAME}` stands for the value
of a variable, and `~/` at the front of a path for the home directory. -/

namespace LintBridge

open LintBridge.Text

structure Environment where
  vars : List (String × String) := []
  /-- Variables whose values are given as octets, which need not be those of a text. -/
  octets : List (String × List UInt8) := []
  /-- The home directory that the system knows, which counts where no variable names one. -/
  systemHome : Option String := none
  deriving DecidableEq, Repr, Inhabited

namespace Environment

/-- The octets of the value of a variable. No variable has an empty name or one with `=` or NUL in
it. -/
def value? (env : Environment) (name : String) : Option (List UInt8) :=
  if name = "" ∨ name.contains '=' ∨ name.contains '\x00' then none
  else (env.octets.lookup name).or ((env.vars.lookup name).map Utf8.ofString)

/-- The value of a variable, if it is a text. -/
def get? (env : Environment) (name : String) : Option String :=
  (env.value? name).bind Utf8.strict?

/-- The home directory: what the variable `HOME` names, or else the one that the system knows. An
empty one is none. -/
def home? (env : Environment) : Option Path :=
  let named := (env.value? "HOME").filter (· ≠ [])
  let known := (env.systemHome.map Utf8.ofString).filter (· ≠ [])
  (named.or known).map Path.mk

end Environment

namespace Settings

/-- The name of a reference and the text after it, at the text after `${`. -/
def splitReference? : List Char → Option (List Char × List Char)
  | [] => none
  | '\x7d' :: r => some ([], r)
  | c :: r => (splitReference? r).map fun (name, after) => (c :: name, after)

theorem length_splitReference? {s name rest : List Char}
    (h : splitReference? s = some (name, rest)) : rest.length < s.length := by
  fun_induction splitReference? s generalizing name rest with
  | case1 => simp at h
  | case2 r => simp_all
  | case3 c r _ ih =>
    obtain ⟨⟨n, a⟩, hn, he⟩ := Option.map_eq_some_iff.1 h
    obtain ⟨-, rfl⟩ := Prod.mk.inj he
    exact Nat.lt_succ_of_lt (ih hn)

/-- The text with each reference replaced by the value of its variable, or by nothing where there is
none. A reference that is not closed stays as it is, and values are not looked at again. -/
def expandChars (env : Environment) : List Char → List Char
  | [] => []
  | '$' :: '\x7b' :: r =>
    match h : splitReference? r with
    | some (name, rest) =>
      have := length_splitReference? h
      ((env.get? (String.ofList name)).getD "").toList ++ expandChars env rest
    | none => '$' :: '\x7b' :: r
  | c :: r => c :: expandChars env r
termination_by s => s.length

def expand (env : Environment) (s : String) : String := String.ofList (expandChars env s.toList)

/-- The path that a setting names, with references and the home directory filled in. -/
def expandPath (env : Environment) (s : String) : Path :=
  let expanded := expandChars env s.toList
  match expanded, env.home? with
  | '~' :: '/' :: rest, some home => home.join (Path.ofString (String.ofList rest))
  | _, _ => Path.ofString (String.ofList expanded)

end Settings

end LintBridge
