import Conduit.Path.Reader
import Conduit.Text.Quoted
import Conduit.Text.Word

/-!
# Placeholders

A placeholder is a dot path between double braces. Placeholders are found
first, from left to right and each up to the nearest closing braces, and
numbered; what is left of the template then consists of its other
characters and of numbered slots.
-/

namespace Conduit

namespace Template

inductive Error where
  /-- The body of a pair of double braces is no path. -/
  | misplaced (template body : String)
  /-- A body has the form of a path but is none. -/
  | badPath (template : String) (e : PathError)
  /-- The template uses a tag. -/
  | tag (template : String)
  | malformed (template : String)
  | limit (l : Limit)
  deriving DecidableEq, Repr

def Error.message : Error → String
  | .misplaced template body =>
    "Template " ++ Text.quote template ++
      " may only contain \x7b\x7b name \x7d\x7d placeholders, " ++
      "found \x7b\x7b" ++ body ++ "\x7d\x7d"
  | .badPath template e =>
    "Invalid placeholder in template " ++ Text.quote template ++ ": " ++ e.message
  | .tag template =>
    "Template " ++ Text.quote template ++ " may only contain \x7b\x7b name \x7d\x7d placeholders"
  | .malformed template => "Invalid template " ++ Text.quote template
  | .limit l => l.message

/-- One element of a template: a character, or the slot of a placeholder. -/
inductive Mark where
  | char (c : Char)
  | slot (n : Nat)
  deriving DecidableEq, Repr

/-! ## The form of a placeholder -/

def isNameChar (c : Char) : Bool := Text.isWord c || c = '-'

/-- The text after a name of at least one character. -/
def afterName? (cs : List Char) : Option (List Char) :=
  let name := cs.takeWhile isNameChar
  if name.isEmpty then none else some (cs.drop name.length)

/-- The text after a quoted name, from its opening quote on. -/
def afterQuoted? : List Char → Option (List Char)
  | q :: rest =>
    if q = '\'' ∨ q = '"' then
      match rest.dropWhile (· ≠ q) with
      | _ :: after => some after
      | [] => none
    else none
  | [] => none

/-- The text after an index. -/
def afterIndex? (cs : List Char) : Option (List Char) :=
  let body := (DotPath.sign cs).2
  let digits := body.takeWhile Text.isDigit
  if digits.isEmpty then none else some (body.drop digits.length)

/-- The text after a bracket, from inside its opening mark on. -/
def afterBracket? (cs : List Char) : Option (List Char) :=
  let inner := Text.dropBlanks cs
  (afterQuoted? inner <|> afterIndex? inner).bind DotPath.closing?

/-- Whether a text goes on with points and brackets up to its end. The
fuel is its length. -/
def isTail : Nat → List Char → Bool
  | _, [] => true
  | 0, _ => false
  | fuel + 1, '.' :: rest =>
    match afterName? rest with
    | some after => isTail fuel after
    | none => false
  | fuel + 1, '[' :: rest =>
    match afterBracket? rest with
    | some after => isTail fuel after
    | none => false
  | _, _ => false

/-- Whether a text has the form of a placeholder's path: names of word
characters and hyphens, and brackets with an index or a quoted name. -/
def isPathForm (cs : List Char) : Bool :=
  match afterName? cs with
  | some after => isTail after.length after
  | none => false

/-- The path in a placeholder's body. -/
def readBody (template : String) (body : List Char) : Except Error DotPath :=
  let path := Text.dropBlanksEnd (Text.dropBlanks body)
  if isPathForm path then
    match DotPath.parse (String.ofList path) with
    | .ok p => .ok p
    | .error (.limit l) => .error (.limit l)
    | .error e => .error (.badPath template e)
  else .error (.misplaced template (String.ofList body))

/-! ## Finding placeholders -/

/-- The text up to the nearest closing braces, and the text after them. -/
def untilClose? : List Char → Option (List Char × List Char)
  | '\x7d' :: '\x7d' :: rest => some ([], rest)
  | c :: rest => (untilClose? rest).map fun p => (c :: p.1, p.2)
  | [] => none

/-- The marks of a text from slot `n` on, with the paths of its slots. The
fuel is the length of the text. -/
def cut (template : String) : Nat → Nat → List Char → Except Error (List Mark × List DotPath)
  | 0, _, _ => .ok ([], [])
  | _, _, [] => .ok ([], [])
  | fuel + 1, n, '\x7b' :: '\x7b' :: rest =>
    match untilClose? rest with
    | some (body, after) => do
      let path ← readBody template body
      let (marks, paths) ← cut template fuel (n + 1) after
      .ok (.slot n :: marks, path :: paths)
    | none => do
      let (marks, paths) ← cut template fuel n ('\x7b' :: rest)
      .ok (.char '\x7b' :: marks, paths)
  | fuel + 1, n, c :: rest => do
    let (marks, paths) ← cut template fuel n rest
    .ok (.char c :: marks, paths)

/-- Every line end among the marks as one line feed. -/
def joinLines : List Mark → List Mark
  | .char '\r' :: .char '\n' :: rest => .char '\n' :: joinLines rest
  | .char '\r' :: rest => .char '\n' :: joinLines rest
  | m :: rest => m :: joinLines rest
  | [] => []

end Template

end Conduit
