import LintBridge.Text.Blank
import LintBridge.Url.Parser

/-! A file that the host hands over for analysis: where it is, and what the host declares of it. -/

namespace LintBridge

open LintBridge.Text

/-- The declared encoding of a file. The worker itself reads UTF-8 only. -/
inductive Charset where
  | utf8
  | other (label : String)
  deriving DecidableEq, Repr

namespace Charset

/-- The encoding that a label names: UTF-8 if the label, trimmed and without hyphens and
underscores, is `utf8` in any case. -/
def ofLabel (label : String) : Charset :=
  let trimmed := trimChars label.toList
  let plain := String.ofList (trimmed.filter fun c => c != '-' && c != '_')
  if eqIgnoringAsciiCase plain "utf8" then .utf8 else .other (String.ofList trimmed)

def name : Charset → String
  | .utf8 => "UTF-8"
  | .other label => label

end Charset

/-- Whether a file is part of the product or of its tests. -/
inductive FileKind where
  | main
  | test
  deriving DecidableEq, Repr

structure SourceFile where
  url : Url
  language : String := "css"
  kind : FileKind := .main
  charset : Charset := .utf8
  deriving DecidableEq, Repr

namespace SourceFile

def ofPath? (p : Path) (language : String) : Option SourceFile :=
  (Url.ofPath? p).map fun url => ⟨url, language, .main, .utf8⟩

def display (f : SourceFile) : String := f.url.text

/-- The absolute local path of the file, if it has one. -/
def path? (f : SourceFile) : Option Path := f.url.toPath?

end SourceFile

end LintBridge
