import LintBridge.Text.Split

/-! Shell scripts: their commands, and reading them. What is read is the part of the language of the
POSIX shell that short scripts are written in: lists, loops, branches, groups, redirections,
quoting, and the values of variables and of arithmetic. -/

namespace LintBridge.Shell

inductive Part where
  | text (s : List Char) (quoted : Bool)
  /-- The value of a variable, or something else if it has none. -/
  | value (name : List Char) (other : Option (List Char)) (quoted : Bool)
  | sum (expression : List Char)
  | script (text : List Char) (quoted : Bool)
  | output (bytes : List UInt8) (quoted : Bool)
  | all (quoted : Bool)
  deriving DecidableEq, Repr

abbrev Word := List Part

/-- How a file is opened by a redirection. -/
inductive Mode where
  | read
  | write
  | append
  deriving DecidableEq, Repr

inductive Redirect where
  | file (descriptor : Nat) (mode : Mode) (target : Word)
  | copy (descriptor source : Nat)
  deriving DecidableEq, Repr

structure Simple where
  assigns : List (List Char × Word) := []
  words : List Word := []
  redirects : List Redirect := []
  deriving DecidableEq, Repr

inductive Command where
  | skip
  | simple (c : Simple)
  | seq (a b : Command)
  | andThen (a b : Command)
  | orElse (a b : Command)
  | negate (a : Command)
  /-- Repeats the body as long as the condition succeeds, or as long as it fails. -/
  | loop (untilDone : Bool) (condition body : Command)
  | branch (condition yes no : Command)
  /-- Goes one way if the word matches one of the patterns, and else the other. -/
  | choose (word : Word) (patterns : List Word) (yes no : Command)
  /-- The output of the first is the input of the second. -/
  | pipe (a b : Command)
  | each (name : List Char) (items : Option (List Word)) (body : Command)
  | group (own : Bool) (body : Command) (redirects : List Redirect)
  | beside (a : Command)
  deriving Repr

/-! ### Words -/

def isGap (c : Char) : Bool := c == ' ' || c == '\t'

def isEnd (c : Char) : Bool :=
  isGap c || c == '\n' || c == ';' || c == '&' || c == '|' || c == '<' || c == '>' || c == '(' ||
    c == ')'

def isNameChar (c : Char) : Bool := c.isAlphanum || c == '_'

/-- Reads up to a character, which is dropped. -/
def splitAt? (c : Char) (s : List Char) : Option (List Char × List Char) :=
  match s.dropWhile (· != c) with
  | _ :: rest => some (s.takeWhile (· != c), rest)
  | [] => none

/-- Reads an arithmetic expression up to the two parentheses that close it. -/
def splitSum? (depth : Nat) : List Char → Option (List Char × List Char)
  | [] => none
  | '(' :: r => (splitSum? (depth + 1) r).map fun (e, rest) => ('(' :: e, rest)
  | ')' :: r =>
    match depth, r with
    | 0, ')' :: rest => some ([], rest)
    | 0, _ => none
    | depth + 1, r => (splitSum? depth r).map fun (e, rest) => (')' :: e, rest)
  | c :: r => (splitSum? depth r).map fun (e, rest) => (c :: e, rest)

/-- Reads a script up to the parenthesis that closes it, of which those in quotes are none. -/
def splitScript? : Nat → Option Char → List Char → Option (List Char × List Char)
  | _, _, [] => none
  | depth, some q, c :: r =>
    (splitScript? depth (if c = q then none else some q) r).map fun (t, rest) => (c :: t, rest)
  | 0, none, ')' :: rest => some ([], rest)
  | depth, none, c :: r =>
    let deeper := if c = '(' then depth + 1 else if c = ')' then depth - 1 else depth
    let quote := if c = '\'' ∨ c = '"' then some c else none
    (splitScript? deeper quote r).map fun (t, rest) => (c :: t, rest)

/-- Reads what follows a dollar sign; nothing if the sign stands for itself. -/
def readValue? (quoted : Bool) : List Char → Option (Part × List Char)
  | '(' :: '(' :: r => (splitSum? 0 r).map fun (e, rest) => (.sum e, rest)
  | '(' :: r => (splitScript? 0 none r).map fun (t, rest) => (.script t quoted, rest)
  | '@' :: r | '*' :: r => some (.all quoted, r)
  | '#' :: r => some (.value ['#'] none quoted, r)
  | '?' :: r => some (.value ['?'] none quoted, r)
  | '$' :: r => some (.value ['$'] none quoted, r)
  | '\x7b' :: r => do
    let (inside, rest) ← splitAt? '\x7d' r
    let name := inside.takeWhile fun c => isNameChar c || c == '#' || c == '?' || c == '@'
    match inside.drop name.length with
    | [] => some (if name = ['@'] then .all quoted else .value name none quoted, rest)
    | ':' :: '-' :: other => some (.value name (some other) quoted, rest)
    | '-' :: other => some (.value name (some other) quoted, rest)
    | _ => none
  | c :: r =>
    if c.isDigit then some (.value [c] none quoted, r)
    else if isNameChar c then
      some (.value ((c :: r).takeWhile isNameChar) none quoted, (c :: r).dropWhile isNameChar)
    else none
  | [] => none

/-- Reads parts within double quotes up to the closing quote. The fuel bounds their number. -/
def readQuoted? : Nat → List Char → Option (Word × List Char)
  | 0, _ => none
  | fuel + 1, s =>
    match s with
    | [] => none
    | '"' :: r => some ([], r)
    | '\\' :: c :: r => do
      let (parts, rest) ← readQuoted? fuel r
      let text := if ['$', '"', '\\', '\x60'].contains c then [c]
        else if c = '\n' then [] else ['\\', c]
      some (.text text true :: parts, rest)
    | '\x60' :: r => do
      let (inside, after) ← splitAt? '\x60' r
      let (parts, rest) ← readQuoted? fuel after
      some (.script inside true :: parts, rest)
    | '$' :: r =>
      match readValue? true r with
      | some (part, after) => do
        let (parts, rest) ← readQuoted? fuel after
        some (part :: parts, rest)
      | none => do
        let (parts, rest) ← readQuoted? fuel r
        some (.text ['$'] true :: parts, rest)
    | c :: r => do
      let (parts, rest) ← readQuoted? fuel r
      some (.text [c] true :: parts, rest)

def readWord? : Nat → List Char → Option (Word × List Char)
  | 0, _ => none
  | fuel + 1, s =>
    match s with
    | [] => some ([], [])
    | '\'' :: r => do
      let (inside, after) ← splitAt? '\'' r
      let (parts, rest) ← readWord? fuel after
      some (.text inside true :: parts, rest)
    | '"' :: r => do
      let (inside, after) ← readQuoted? (r.length + 1) r
      let (parts, rest) ← readWord? fuel after
      some (.text [] true :: inside ++ parts, rest)
    | '\\' :: '\n' :: r => readWord? fuel r
    | '\\' :: c :: r => do
      let (parts, rest) ← readWord? fuel r
      some (.text [c] true :: parts, rest)
    | '\x60' :: r => do
      let (inside, after) ← splitAt? '\x60' r
      let (parts, rest) ← readWord? fuel after
      some (.script inside false :: parts, rest)
    | '$' :: r =>
      match readValue? false r with
      | some (part, after) => do
        let (parts, rest) ← readWord? fuel after
        some (part :: parts, rest)
      | none => do
        let (parts, rest) ← readWord? fuel r
        some (.text ['$'] false :: parts, rest)
    | c :: r =>
      if isEnd c then some ([], s)
      else do
        let (parts, rest) ← readWord? fuel r
        some (.text [c] false :: parts, rest)

def plain? (w : Word) : Option (List Char) :=
  (w.mapM fun (p : Part) => match p with
    | .text s false => some s
    | _ => none).map List.flatten

def assign? (w : Word) : Option (List Char × Word) :=
  let name := w.takeWhile fun (p : Part) => match p with
    | .text [c] false => isNameChar c
    | _ => false
  match plain? name, w.drop name.length with
  | some (c :: cs), .text ['='] false :: value =>
    if c.isDigit then none else some (c :: cs, value)
  | _, _ => none

/-! ### Commands -/

/-- Drops blanks, and line breaks that a backslash hides. -/
def skipGaps : List Char → List Char
  | '\\' :: '\n' :: r => skipGaps r
  | c :: r => if isGap c then skipGaps r else c :: r
  | [] => []

def skipComment (s : List Char) : List Char :=
  if s.head? = some '#' then s.dropWhile (· != '\n') else s

/-- Drops what may stand between commands: blanks, comments and line breaks. The fuel bounds their
number. -/
def skipLines : Nat → List Char → List Char
  | 0, s => s
  | fuel + 1, s =>
    match skipComment (skipGaps s) with
    | '\n' :: r => skipLines fuel r
    | s => s

def skipBreaks (s : List Char) : List Char := skipLines (s.length + 1) s

def afterReserved? (word : String) (s : List Char) : Option (List Char) :=
  let w := word.toList
  if w.isPrefixOf s ∧ (s.drop w.length).head?.all isEnd then some (s.drop w.length) else none

/-- Reads a redirection, if one stands at the front. -/
def readRedirect? (s : List Char) : Option (Redirect × List Char) :=
  let digits := s.takeWhile Char.isDigit
  let given := digits.head?.map fun c => c.toNat - 48
  let target (descriptor : Nat) (mode : Mode) (r : List Char) : Option (Redirect × List Char) :=
    let r := skipGaps r
    (readWord? (r.length + 1) r).map fun (w, rest) => (.file descriptor mode w, rest)
  match s.drop digits.length with
  | '>' :: '&' :: c :: r =>
    if c.isDigit then some (.copy (given.getD 1) (c.toNat - 48), r) else none
  | '>' :: '>' :: r => target (given.getD 1) .append r
  | '>' :: r => target (given.getD 1) .write r
  | '<' :: r => target (given.getD 0) .read r
  | _ => none

/-- Reads redirections after a command. The fuel bounds their number. -/
def readRedirects : Nat → List Char → List Redirect × List Char
  | 0, s => ([], s)
  | fuel + 1, s =>
    match readRedirect? (skipGaps s) with
    | some (redirect, rest) =>
      let (more, rest) := readRedirects fuel rest
      (redirect :: more, rest)
    | none => ([], s)

/-- Reads a simple command. The fuel bounds the number of its words. -/
def readSimple? : Nat → Simple → List Char → Option (Simple × List Char)
  | 0, _, _ => none
  | fuel + 1, c, s =>
    let s := skipGaps s
    match readRedirect? s with
    | some (redirect, rest) =>
      readSimple? fuel { c with redirects := c.redirects ++ [redirect] } rest
    | none =>
      match readWord? (s.length + 1) s with
      | none => none
      | some ([], rest) => some (c, rest)
      | some (w, rest) =>
        match c.words, assign? w with
        | [], some a => readSimple? fuel { c with assigns := c.assigns ++ [a] } rest
        | _, _ => readSimple? fuel { c with words := c.words ++ [w] } rest

def closers : List String := ["done", "do", "then", "else", "elif", "fi", "esac", "\x7d"]

/-- Reads the patterns of a choice up to the parenthesis after them. The fuel bounds their number.
-/
def readPatterns? : Nat → List Char → Option (List Word × List Char)
  | 0, _ => none
  | fuel + 1, s => do
    let s := skipGaps s
    let (w, rest) ← readWord? (s.length + 1) s
    match skipGaps rest with
    | ')' :: rest => some ([w], rest)
    | '|' :: rest =>
      let (ws, rest) ← readPatterns? fuel rest
      some (w :: ws, rest)
    | _ => none

def isClosed (s : List Char) : Bool :=
  s.isEmpty || s.head? == some ')' || [';', ';'].isPrefixOf s ||
    closers.any fun w => (afterReserved? w s).isSome

mutual

def readCommand? : Nat → List Char → Option (Command × List Char)
  | 0, _ => none
  | fuel + 1, s =>
    let s := skipGaps s
    match afterReserved? "!" s, afterReserved? "while" s, afterReserved? "until" s with
    | some r, _, _ => (readCommand? fuel r).map fun (c, rest) => (.negate c, rest)
    | none, some r, _ => readLoop? fuel false r
    | none, none, some r => readLoop? fuel true r
    | none, none, none =>
      match afterReserved? "if" s, afterReserved? "for" s, afterReserved? "\x7b" s with
      | some r, _, _ => readBranch? fuel r
      | none, some r, _ => readEach? fuel r
      | none, none, some r => do
        let (body, rest) ← readList? fuel r
        let rest ← afterReserved? "\x7d" rest
        let (redirects, rest) := readRedirects rest.length rest
        some (.group false body redirects, rest)
      | none, none, none =>
        match afterReserved? "case" s, s with
        | some r, _ => do
          let r := skipGaps r
          let (w, rest) ← readWord? (r.length + 1) r
          readArms? fuel w (← afterReserved? "in" (skipBreaks rest))
        | none, '(' :: r => do
          let (body, rest) ← readList? fuel r
          match rest with
          | ')' :: rest =>
            let (redirects, rest) := readRedirects rest.length rest
            some (.group true body redirects, rest)
          | _ => none
        | none, _ => do
          let (c, rest) ← readSimple? (s.length + 1) {} s
          if c.assigns.isEmpty && c.words.isEmpty && c.redirects.isEmpty then none
          else some (.simple c, rest)

def readLoop? : Nat → Bool → List Char → Option (Command × List Char)
  | 0, _, _ => none
  | fuel + 1, untilDone, s => do
    let (condition, rest) ← readList? fuel s
    let (body, rest) ← readBody? fuel rest
    let (redirects, rest) := readRedirects rest.length rest
    some (.group false (.loop untilDone condition body) redirects, rest)

def readBody? : Nat → List Char → Option (Command × List Char)
  | 0, _ => none
  | fuel + 1, s => do
    let rest ← afterReserved? "do" s
    let (body, rest) ← readList? fuel rest
    let rest ← afterReserved? "done" rest
    some (body, rest)

def readBranch? : Nat → List Char → Option (Command × List Char)
  | 0, _ => none
  | fuel + 1, s => do
    let (condition, rest) ← readList? fuel s
    let rest ← afterReserved? "then" rest
    let (yes, rest) ← readList? fuel rest
    match afterReserved? "fi" rest, afterReserved? "else" rest, afterReserved? "elif" rest with
    | some rest, _, _ => some (.branch condition yes .skip, rest)
    | none, some r, _ =>
      let (no, rest) ← readList? fuel r
      let rest ← afterReserved? "fi" rest
      some (.branch condition yes no, rest)
    | none, none, some r =>
      let (no, rest) ← readBranch? fuel r
      some (.branch condition yes no, rest)
    | none, none, none => none

def readEach? : Nat → List Char → Option (Command × List Char)
  | 0, _ => none
  | fuel + 1, s => do
    let s := skipGaps s
    let name := s.takeWhile isNameChar
    let after := skipGaps (s.drop name.length)
    match afterReserved? "in" after with
    | some r =>
      let (c, rest) ← readSimple? (r.length + 1) {} r
      let (body, rest) ← readBody? fuel (skipBreaks (rest.dropWhile (· == ';')))
      some (.each name (some c.words) body, rest)
    | none =>
      let (body, rest) ← readBody? fuel (skipBreaks (after.dropWhile (· == ';')))
      some (.each name none body, rest)

def readArms? : Nat → Word → List Char → Option (Command × List Char)
  | 0, _, _ => none
  | fuel + 1, w, s =>
    let s := skipBreaks s
    match afterReserved? "esac" s with
    | some rest => some (.skip, rest)
    | none => do
      let s := if s.head? = some '(' then s.drop 1 else s
      let (patterns, rest) ← readPatterns? (s.length + 1) s
      let (yes, rest) ← readList? fuel rest
      let rest := if [';', ';'].isPrefixOf rest then rest.drop 2 else rest
      let (no, rest) ← readArms? fuel w rest
      some (.choose w patterns yes no, rest)

/-- Reads commands of which each has the output of the one before as its input. -/
def readPiped? : Nat → List Char → Option (Command × List Char)
  | 0, _ => none
  | fuel + 1, s => do
    let (a, rest) ← readCommand? fuel s
    match skipGaps rest with
    | '|' :: '|' :: _ => some (a, rest)
    | '|' :: r =>
      let (b, rest) ← readPiped? fuel (skipBreaks r)
      some (.pipe a b, rest)
    | _ => some (a, rest)

def readJoined? : Nat → Command → List Char → Option (Command × List Char)
  | 0, _, _ => none
  | fuel + 1, a, s =>
    match skipGaps s with
    | '&' :: '&' :: r => do
      let (b, rest) ← readPiped? fuel (skipBreaks r)
      readJoined? fuel (.andThen a b) rest
    | '|' :: '|' :: r => do
      let (b, rest) ← readPiped? fuel (skipBreaks r)
      readJoined? fuel (.orElse a b) rest
    | s => some (a, s)

def readList? : Nat → List Char → Option (Command × List Char)
  | 0, _ => none
  | fuel + 1, s =>
    let s := skipBreaks s
    if isClosed s then some (.skip, s)
    else do
      let (first, rest) ← readPiped? fuel s
      let (c, rest) ← readJoined? fuel first rest
      match skipComment (skipGaps rest) with
      | '&' :: r =>
        let (cs, rest) ← readList? fuel r
        some (.seq (.beside c) cs, rest)
      | ';' :: ';' :: r => some (c, ';' :: ';' :: r)
      | ';' :: r | '\n' :: r =>
        let (cs, rest) ← readList? fuel r
        some (.seq c cs, rest)
      | rest => if isClosed rest then some (c, rest) else none

end

def parse? (text : List Char) : Option Command :=
  match readList? (4 * text.length + 8) text with
  | some (c, []) => some c
  | _ => none

end LintBridge.Shell
