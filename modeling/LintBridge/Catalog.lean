import LintBridge.Rule

/-! The rules that the host knows for style sheets: for each its key in the host, the linter's name
for it, and how its parameters become options of the linter. -/

namespace LintBridge

/-- How the parameters of a rule become options of the linter. -/
inductive RuleOptions where
  | none
  /-- A parameter lists names that the linter is to ignore, under the same name. -/
  | ignoreList (param : String) (default : List String)
  /-- A parameter says whether fallback values are tolerated. -/
  | ignoreFallbacks
  /-- The linter is always told to ignore the pseudo-classes of module systems. -/
  | ignorePseudoClasses
  deriving DecidableEq, Repr

structure CatalogEntry where
  key : String
  linterKey : String
  options : RuleOptions := .none
  deriving DecidableEq, Repr

/-- The rules for style sheets, in the order of their keys. -/
def catalog : List CatalogEntry :=
  [{ key := "S4647", linterKey := "color-no-invalid-hex" },
    { key := "S4648", linterKey := "font-family-no-duplicate-names" },
    { key := "S4649", linterKey := "font-family-no-missing-generic-family-keyword" },
    { key := "S4650", linterKey := "function-calc-no-unspaced-operator" },
    { key := "S4651", linterKey := "function-linear-gradient-no-nonstandard-direction" },
    { key := "S4652", linterKey := "string-no-newline" },
    { key := "S4653", linterKey := "unit-no-unknown" },
    { key := "S4654", linterKey := "property-no-unknown",
      options := .ignoreList "ignoreProperties"
        ["composes", "exportedKey", "localAlias", "/^mso-/"] },
    { key := "S4655", linterKey := "keyframe-declaration-no-important" },
    { key := "S4656", linterKey := "declaration-block-no-duplicate-properties",
      options := .ignoreFallbacks },
    { key := "S4657", linterKey := "declaration-block-no-shorthand-property-overrides" },
    { key := "S4658", linterKey := "block-no-empty" },
    { key := "S4659", linterKey := "selector-pseudo-class-no-unknown",
      options := .ignorePseudoClasses },
    { key := "S4660", linterKey := "selector-pseudo-element-no-unknown" },
    { key := "S4661", linterKey := "media-feature-name-no-unknown" },
    { key := "S4662", linterKey := "at-rule-no-unknown",
      options := .ignoreList "ignoreAtRules"
        ["at-root", "content", "debug", "each", "else", "error", "for", "function", "if",
          "include", "mixin", "return", "warn", "while", "extend"] },
    { key := "S4663", linterKey := "comment-no-empty" },
    { key := "S4664", linterKey := "no-descending-specificity" },
    { key := "S4666", linterKey := "no-duplicate-selectors" },
    { key := "S4667", linterKey := "no-empty-source" },
    { key := "S4668", linterKey := "no-extra-semicolons" },
    { key := "S4670", linterKey := "selector-type-no-unknown",
      options := .ignoreList "ignoreTypes" ["/^mat-/"] }]

def catalogEntry? (key : String) : Option CatalogEntry := catalog.find? (·.key == key)

/-- Every rule of the catalog without parameters. -/
def defaultRules : List ActiveRule := catalog.map fun e => { key := e.key }

end LintBridge
