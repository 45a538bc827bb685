import LintBridge.Path
import LintBridge.Text.Blank

/-! Rules: the key by which the host knows a rule, and a rule as a quality profile activates it,
with its parameters. -/

namespace LintBridge

open LintBridge.Text

/-- The key of a rule: the repository that defines it, and its name there. -/
structure RuleKey where
  repository : String
  rule : String
  deriving DecidableEq, Repr, Inhabited

namespace RuleKey

def display (k : RuleKey) : String := k.repository ++ ":" ++ k.rule

/-- The order of keys: by repository, then by rule, each octet by octet. -/
def compare (a b : RuleKey) : Ordering :=
  (Path.compareBytes (Utf8.ofString a.repository) (Utf8.ofString b.repository)).then
    (Path.compareBytes (Utf8.ofString a.rule) (Utf8.ofString b.rule))

/-- Adds a key to a sorted list without duplicates. -/
def insert (k : RuleKey) : List RuleKey → List RuleKey
  | [] => [k]
  | a :: r =>
    match k.compare a with
    | .lt => k :: a :: r
    | .eq => a :: r
    | .gt => a :: insert k r

/-- The keys of a list in order, each once. -/
def sorted (keys : List RuleKey) : List RuleKey := keys.foldl (fun s k => insert k s) []

end RuleKey

inductive ParamError where
  | notABoolean (rule param value : String)
  deriving DecidableEq, Repr

def ParamError.message : ParamError → String
  | .notABoolean rule param value =>
    s!"rule {rule}: parameter '{param}' must be true or false, got '{value}'"

/-- A rule of the quality profile with its parameters, of which each has one value. -/
structure ActiveRule where
  key : String
  params : List (String × String) := []
  deriving DecidableEq, Repr, Inhabited

namespace ActiveRule

/-- The rule with a parameter set, in place of an earlier value. -/
def withParam (r : ActiveRule) (name value : String) : ActiveRule :=
  { r with params := r.params.filter (·.1 != name) ++ [(name, value)] }

def param? (r : ActiveRule) (name : String) : Option String := r.params.lookup name

/-- The truth value of a parameter: `true` or `false` in any case, with white space around it or
not; the default if the parameter is not set. -/
def boolParam (r : ActiveRule) (name : String) (default : Bool) : Except ParamError Bool :=
  match r.param? name with
  | none => .ok default
  | some raw =>
    let value := trim raw
    if eqIgnoringAsciiCase value "true" then .ok true
    else if eqIgnoringAsciiCase value "false" then .ok false
    else .error (.notABoolean r.key name raw)

end ActiveRule

end LintBridge
