import LintBridge.Catalog
import LintBridge.Json.Printer
import LintBridge.KeyMap
import LintBridge.Log
import LintBridge.Text.Split

/-! The active rules of a quality profile, resolved against the catalog. Two maps are kept under the
linter's keys, one of the keys by which the host knows the rules and one of their values in the
linter's configuration. Of two active rules with one key the later one counts. -/

namespace LintBridge

open LintBridge.Text LintBridge.Json

/-- The items of a list given as one text with commas, trimmed, without blank ones. -/
def listItems (raw : String) : List String :=
  ((splitAtEach ',' raw.toList).map trimChars).filter (· ≠ []) |>.map String.ofList

def withOptions (name : String) (items : List String) : Value :=
  .array [.bool true, .record [(name, .array (items.map .text))]]

def CatalogEntry.render (entry : CatalogEntry) (rule : ActiveRule) : Except ParamError Value :=
  match entry.options with
  | .none => .ok (.bool true)
  | .ignoreList param default =>
    .ok (withOptions param ((rule.param? param).elim default listItems))
  | .ignoreFallbacks =>
    (rule.boolParam "ignoreFallbacks" true).map fun ignore =>
      if ignore then withOptions "ignore" ["consecutive-duplicates-with-different-values"]
      else .bool true
  | .ignorePseudoClasses => .ok (withOptions "ignorePseudoClasses" ["local", "global"])

/-- The active rules. -/
@[ext]
structure RuleSet where
  /-- The keys of the host by those of the linter. -/
  keys : KeyMap RuleKey := {}
  /-- What the linter is told about each of its rules. -/
  config : KeyMap Value := {}
  deriving Repr

namespace RuleSet

def repository : String := "css"

/-- The name of the linter's configuration in the work directory. -/
def configName : String := "stylelintconfig.json"

/-- Takes a rule of the catalog in: its value first, and then its key. -/
def add (rules : RuleSet) (entry : CatalogEntry) (value : Value) : RuleSet :=
  let configured := { rules with config := rules.config.insert entry.linterKey value }
  { configured with keys := configured.keys.insert entry.linterKey ⟨repository, entry.key⟩ }

/-- The record about an active rule that the catalog does not have. -/
def unknownRule (key : String) : Log.Record :=
  { level := .warn, origin := .rules, text := "Ignoring rule unknown to the CSS catalog",
    fields := [("rule", .text key)] }

/-- Adds active rules one by one. Rules that the catalog does not have are logged and passed over;
the first bad parameter ends it. -/
def addAll (rules : RuleSet) : List ActiveRule → List Log.Record × Except ParamError RuleSet
  | [] => ([], .ok rules)
  | rule :: rest =>
    match catalogEntry? rule.key with
    | none =>
      let (logs, result) := addAll rules rest
      (unknownRule rule.key :: logs, result)
    | some entry =>
      match entry.render rule with
      | .error e => ([], .error e)
      | .ok value => addAll (rules.add entry value) rest

/-- Resolves the active rules of a profile, and what is logged while that is done. -/
def ofActive (active : List ActiveRule) : List Log.Record × Except ParamError RuleSet :=
  addAll {} active

def isEmpty (rules : RuleSet) : Bool := rules.keys.isEmpty

def size (rules : RuleSet) : Nat := rules.keys.size

/-- The host key under which a linter rule reports, if it is active. -/
def hostKey? (rules : RuleSet) (linterKey : String) : Option RuleKey := rules.keys.get? linterKey

/-- The configuration of the linter: an object whose one member holds the value of each rule. -/
def document (rules : RuleSet) : Value := .record [("rules", .record rules.config.entries)]

/-- The configuration of the linter as it is stored: in one line, which ends. -/
def documentText (rules : RuleSet) : String := rules.document.compact ++ "\n"

end RuleSet

end LintBridge
