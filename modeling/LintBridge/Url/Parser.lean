import LintBridge.Url.Basic

/-! Reading a URL from text, after the WHATWG URL standard with these particulars: no base URL is
given; the path of a `file` URL never starts with two slashes; and a segment that looks like a drive
letter is not removed by `..`. -/

namespace LintBridge.Url

open LintBridge.Text

/-- How the scheme of a URL shapes what follows. -/
inductive SchemeKind where
  | file
  | special
  | plain
  deriving DecidableEq, Repr

def SchemeKind.ofScheme (scheme : String) : SchemeKind :=
  if scheme = "file" then .file
  else if ["http", "https", "ws", "wss", "ftp"].contains scheme then .special
  else .plain

/-- The port that need not be written with a scheme. -/
def defaultPort? (scheme : String) : Option Nat :=
  if scheme = "http" ∨ scheme = "ws" then some 80
  else if scheme = "https" ∨ scheme = "wss" then some 443
  else if scheme = "ftp" then some 21
  else none

/-- Whether a character separates segments: a slash, or a backslash where that counts as one. -/
def isSlash (kind : SchemeKind) (c : Char) : Bool := c == '/' || (c == '\\' && kind != .plain)

def endsPath (c : Char) : Bool := c == '?' || c == '#'

/-! ### Paths -/

/-- A letter and a colon or a bar, followed by nothing or by a delimiter. -/
def startsWithDrive : List Char → Bool
  | a :: m :: r =>
    a.isAlpha && (m == ':' || m == '|') &&
      match r with
      | [] => true
      | c :: _ => c == '/' || c == '\\' || endsPath c
  | _ => false

def isDrive (s : List Char) : Bool := s.length == 2 && startsWithDrive s

def isNormalDrive : List Char → Bool
  | [a, ':'] => a.isAlpha
  | _ => false

def isDoubleDot (s : List Char) : Bool :=
  ["..", "%2e%2e", "%2e.", ".%2e"].contains (String.ofList (s.map Char.toLower))

def isSingleDot (s : List Char) : Bool :=
  [".", "%2e"].contains (String.ofList (s.map Char.toLower))

/-- The path written so far, backwards, without the name after its last slash, unless the name is
the drive letter of a `file` URL. -/
def dropLastName (kind : SchemeKind) (written : List Char) : List Char :=
  let name := written.takeWhile (· != '/')
  if kind == .file && isNormalDrive name.reverse then written
  else written.dropWhile (· != '/')

/-- Whether the slash that ends the path written so far, backwards, may go with the name before it:
it is not the first slash of the path and no drive letter stands before it. -/
def slashMayGo : List Char → Bool
  | '/' :: r =>
    let name := r.takeWhile (· != '/')
    r.contains '/' && !startsWithDrive (name.reverse ++ ['/'])
  | _ => false

/-- The path written so far, backwards, after a segment that stands for its parent. -/
def leaveSegment (kind : SchemeKind) (written : List Char) (slash : Bool) : List Char :=
  let shorter := dropLastName kind (if slashMayGo written then written.drop 1 else written)
  if slash && shorter.head? != some '/' then '/' :: shorter else shorter

/-- The path written so far, backwards, after one more segment, which a slash follows or not. The
flag says whether the host has to go because the segment is a drive letter. -/
def addSegment (kind : SchemeKind) (written segment : List Char) (slash : Bool) :
    List Char × Bool :=
  let encoded := segment.flatMap (writeChar .path)
  if isDoubleDot encoded then (leaveSegment kind written slash, false)
  else if isSingleDot encoded then
    (if written.head? = some '/' then written else '/' :: written, false)
  else
    let drive := kind == .file && written.length == 1 && isDrive encoded
    let name := if drive then [encoded.headD 'c', ':'] else encoded
    let longer := name.reverse ++ written
    (if slash then '/' :: longer else longer, drive)

/-- Adds the segments of the rest of a path to what is written of it, backwards. -/
def addSegments (kind : SchemeKind) (written : List Char) :
    List (List Char) → List Char × Bool
  | [] => (written, false)
  | [last] => addSegment kind written last false
  | segment :: rest =>
    let (written, drive) := addSegment kind written segment true
    let (written, drives) := addSegments kind written rest
    (written, drive || drives)

/-- Reads the rest of a path, of which some is written already: the path, whether a drive letter in
it drives out the host, and the text after it. -/
def readPath (kind : SchemeKind) (written : List Char) (input : List Char) :
    List Char × Bool × List Char :=
  let body := input.takeWhile (!endsPath ·)
  let (backwards, drive) := addSegments kind written.reverse (splitWhere (isSlash kind) body)
  let path := backwards.reverse
  let path := if kind == .file then '/' :: path.dropWhile (· == '/') else path
  (path, drive, input.dropWhile (!endsPath ·))

def readPathAfterAuthority (kind : SchemeKind) (input : List Char) :
    List Char × Bool × List Char :=
  match kind, input with
  | .plain, [] => ([], false, [])
  | .plain, c :: r =>
    if endsPath c then ([], false, c :: r)
    else if c == '/' then readPath kind [] (c :: r)
    else readPath kind ['/'] (c :: r)
  | _, c :: r => readPath kind ['/'] (if isSlash kind c then r else c :: r)
  | _, [] => readPath kind ['/'] []

/-! ### Query and fragment -/

def readEnd (kind : SchemeKind) : List Char → Option String × Option String
  | '?' :: r =>
    let set := if kind == .plain then EscapeSet.query else EscapeSet.specialQuery
    let query := String.ofList ((r.takeWhile (· != '#')).flatMap (writeChar set))
    match r.dropWhile (· != '#') with
    | _ :: f => (some query, some (String.ofList (f.flatMap (writeChar .fragment))))
    | [] => (some query, none)
  | '#' :: f => (none, some (String.ofList (f.flatMap (writeChar .fragment))))
  | _ => (none, none)

def assemble (kind : SchemeKind) (scheme : String) (authority : Option Authority)
    (path rest : List Char) : Url :=
  let (query, fragment) := readEnd kind rest
  ⟨scheme, authority, String.ofList path, query, fragment⟩

/-! ### Authority -/

/-- The part of an authority before its last `@`, if there is one, and the text after it. -/
def splitCredentials (kind : SchemeKind) (input : List Char) :
    Option (List Char) × List Char :=
  let ends (c : Char) := c == '/' || endsPath c || (c == '\\' && kind != .plain)
  let body := input.takeWhile (!ends ·)
  if body.contains '@' then
    let backwards := body.reverse
    let user := (backwards.dropWhile (· != '@')).drop 1
    let host := (backwards.takeWhile (· != '@')).reverse
    (some user.reverse, host ++ input.dropWhile (!ends ·))
  else (none, input)

/-- A user name and a password, of which an empty one is not kept. -/
def readCredentials (s : List Char) : String × Option String :=
  let write (t : List Char) := String.ofList (t.flatMap (writeChar .userinfo))
  match s.dropWhile (· != ':') with
  | [] => (write s, none)
  | _ :: password =>
    (write (s.takeWhile (· != ':')), if password = [] then none else some (write password))

/-- The text of a host at the front of an authority: up to a delimiter, or to a colon outside
brackets. -/
def hostLength (kind : SchemeKind) : Bool → List Char → Nat
  | _, [] => 0
  | inside, c :: r =>
    if c == ':' && !inside then 0
    else if c == '/' || endsPath c || (c == '\\' && kind != .plain) then 0
    else hostLength kind (if c == '[' then true else if c == ']' then false else inside) r + 1

/-- Reads a port, if the text goes on with a colon. -/
def readPort (scheme : String) : List Char → Except ParseError (Option Nat × List Char)
  | ':' :: r =>
    let digits := r.takeWhile Char.isDigit
    let rest := r.dropWhile Char.isDigit
    let n := natOfDigits digits
    let follows := rest.head?.all fun c => c == '/' || c == '\\' || endsPath c
    if 65535 < n ∨ follows = false then .error .badPort
    else if digits = [] ∨ defaultPort? scheme = some n then .ok (none, rest)
    else .ok (some n, rest)
  | input => .ok (none, input)

def readAfterDoubleSlash (kind : SchemeKind) (scheme : String) (input : List Char) :
    Except ParseError Url := do
  let (credentials, afterUser) := splitCredentials kind input
  let ends (c : Char) := c == '/' || endsPath c || (c == '\\' && kind != .plain)
  if credentials = some [] ∧ afterUser.head?.any ends then throw .emptyHost
  let (user, password) := readCredentials (credentials.getD [])
  let length := hostLength kind false afterUser
  let hostText := afterUser.take length
  let afterHost := afterUser.drop length
  if kind ≠ .plain ∧ hostText = [] then throw .emptyHost
  let host ← if kind = .plain then Host.readOpaque hostText else Host.readDomain hostText
  if host = .name "" ∧ afterHost.head? = some ':' then throw .emptyHost
  let (port, afterPort) ← readPort scheme afterHost
  let host? := if host = .name "" then none else some host
  if host? = none ∧ (user ≠ "" ∨ password ≠ none) then throw .emptyHost
  let (path, _, rest) := readPathAfterAuthority kind afterPort
  return assemble kind scheme (some ⟨user, password, host?, port⟩) path rest

/-! ### File URLs -/

/-- Reads a `file` URL after its colon and two slashes: a host may stand there, but a drive letter
begins the path. -/
def readFileHost (input : List Char) : Except ParseError Url := do
  let ends (c : Char) := c == '/' || c == '\\' || endsPath c
  let hostText := input.takeWhile (!ends ·)
  let rest := input.dropWhile (!ends ·)
  let noHost (input : List Char) : Url :=
    let (path, _, rest) := readPath .file ['/'] input
    assemble .file "file" (some {}) path rest
  if hostText = [] then return noHost rest
  if isDrive hostText then return noHost input
  match ← Host.readDomain hostText with
  | .name "localhost" => return noHost rest
  | host =>
    let (path, drive, rest) := readPathAfterAuthority .file rest
    let authority : Authority := if drive then {} else ⟨"", none, some host, none⟩
    return assemble .file "file" (some authority) path rest

def readFile (input : List Char) : Except ParseError Url :=
  match input with
  | a :: b :: r =>
    if isSlash .file a && isSlash .file b then readFileHost r
    else readLocal (a :: b :: r)
  | short => readLocal short
where
  readLocal (input : List Char) : Except ParseError Url :=
    let start := if input.head?.any (isSlash .file) then [] else ['/']
    let (path, _, rest) := readPath .file start input
    .ok (assemble .file "file" (some {}) path rest)

/-! ### Whole URLs -/

def readPlain (scheme : String) : List Char → Except ParseError Url
  | '/' :: '/' :: r => readAfterDoubleSlash .plain scheme r
  | '/' :: r =>
    let (path, _, rest) := readPath .plain ['/'] r
    .ok (assemble .plain scheme none path rest)
  | input =>
    let path := (input.takeWhile (!endsPath ·)).flatMap (writeChar .controls)
    .ok (assemble .plain scheme none path (input.dropWhile (!endsPath ·)))

def isSchemeChar (c : Char) : Bool := c.isAlphanum || c == '+' || c == '-' || c == '.'

/-- The scheme at the front of a text, in lower case, and what follows its colon. -/
def readScheme? (input : List Char) : Option (String × List Char) :=
  match input.takeWhile isSchemeChar, input.dropWhile isSchemeChar with
  | c :: cs, ':' :: r =>
    if c.isAlpha then some (String.ofList ((c :: cs).map Char.toLower), r) else none
  | _, _ => none

/-- The text without control characters and spaces at its ends, and without tabs and line breaks
anywhere. -/
def strip (s : List Char) : List Char :=
  let isEdge (c : Char) : Bool := c.toNat ≤ 0x20
  let trimmed := ((s.dropWhile isEdge).reverse.dropWhile isEdge).reverse
  trimmed.filter fun c => c != '\t' && c != '\n' && c != '\r'

def parse (s : String) : Except ParseError Url :=
  match readScheme? (strip s.toList) with
  | none => .error .noScheme
  | some (scheme, rest) =>
    match SchemeKind.ofScheme scheme with
    | .file => readFile rest
    | .special =>
      readAfterDoubleSlash .special scheme (rest.dropWhile fun c => c == '/' || c == '\\')
    | .plain => readPlain scheme rest

end LintBridge.Url
