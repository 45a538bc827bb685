import LintBridge.Path
import LintBridge.Url.Host

/-! URLs, how they are written, and the URLs of local files. An absolute path becomes a `file` URL
whose segments are the names of its components with percent escapes, and a `file` URL without a host
gives back the path. -/

namespace LintBridge

open LintBridge.Text LintBridge.Url

/-- The part of a URL between `//` and its path. -/
structure Url.Authority where
  user : String := ""
  password : Option String := none
  host : Option Host := none
  port : Option Nat := none
  deriving DecidableEq, Repr

/-- A URL. The path is kept as it is written; it starts with a slash, or is empty after an
authority, or is opaque. -/
structure Url where
  scheme : String
  authority : Option Url.Authority
  path : String
  query : Option String := none
  fragment : Option String := none
  deriving DecidableEq, Repr

namespace Url

/-- An authority as it is written, without the slashes before it. -/
def Authority.text (a : Authority) : String :=
  let password := a.password.elim "" (":" ++ ·)
  let credentials := if a.user = "" ∧ a.password = none then "" else a.user ++ password ++ "@"
  credentials ++ a.host.elim "" Host.text ++ a.port.elim "" fun n => s!":{n}"

/-- A URL as text. A path that starts with two slashes is marked where no authority stands before
it, so that it is not read as one. -/
def text (u : Url) : String :=
  let front :=
    match u.authority with
    | some a => "//" ++ a.text
    | none => if "//".toList.isPrefixOf u.path.toList then "/." else ""
  u.scheme ++ ":" ++ front ++ u.path ++ u.query.elim "" ("?" ++ ·) ++ u.fragment.elim "" ("#" ++ ·)

/-- The segment that a component of a path below the root becomes. -/
def segmentOf (c : Path.Component) : List Char :=
  '/' :: percentEncode .specialSegment c.bytes

def filePathText (components : List Path.Component) : List Char :=
  if components = [] then ['/'] else components.flatMap segmentOf

def ofPath? (p : Path) : Option Url :=
  match p.components with
  | .root :: rest =>
    some ⟨"file", some {}, String.ofList (filePathText rest), none, none⟩
  | _ => none

def segments? (u : Url) : Option (List (List Char)) :=
  match u.path.toList with
  | '/' :: r => some (splitAtEach '/' r)
  | _ => none

/-- The last two octets of a path that ends like a drive letter, which a slash must follow. -/
def endsInDrive (bytes : List UInt8) : Bool :=
  match bytes.reverse with
  | mark :: letter :: _ :: _ =>
    (Char.ofNat letter.toNat).isAlpha && (mark == 58 || mark == 124)
  | _ => false

def bytesOfSegments (segments : List (List Char)) : List UInt8 :=
  let bytes := segments.flatMap fun s => Path.slash :: percentDecode s
  if endsInDrive bytes then bytes ++ [Path.slash] else bytes

/-- The local path of a `file` URL without a host; its query and its fragment do not count. -/
def toPath? (u : Url) : Option Path :=
  let host := u.authority.bind (·.host)
  if u.scheme = "file" ∧ (host = none ∨ host = some (.name "localhost")) then
    u.segments?.map fun s => ⟨bytesOfSegments s⟩
  else none

end Url

end LintBridge
