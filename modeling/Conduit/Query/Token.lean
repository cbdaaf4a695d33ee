import Conduit.Number.Text
import Conduit.Path.Basic
import Conduit.Text.Backslash
import Conduit.Text.Blank
import Conduit.Text.Digit
import Conduit.Text.Word
import Conduit.Value.Text

/-!
# Query tokens

The text of a query is cut into tokens: marks, numbers, quoted strings
and names, with blanks between them. At each place the first rule that
applies takes as much as it can. A token knows where it stands and how
much text it takes.
-/

namespace Conduit

namespace Query

inductive Mark where
  | root | current
  | descend | point
  | openBracket | closeBracket
  | star | comma | colon | question
  | openParen | closeParen
  | eq | ne | le | ge | lt | gt
  | and | or | not
  deriving DecidableEq, Repr

namespace Mark

def text : Mark → String
  | .root => "$"
  | .current => "@"
  | .descend => ".."
  | .point => "."
  | .openBracket => "["
  | .closeBracket => "]"
  | .star => "*"
  | .comma => ","
  | .colon => ":"
  | .question => "?"
  | .openParen => "("
  | .closeParen => ")"
  | .eq => "=="
  | .ne => "!="
  | .le => "<="
  | .ge => ">="
  | .lt => "<"
  | .gt => ">"
  | .and => "&&"
  | .or => "||"
  | .not => "!"

/-- All marks; of two that begin alike the longer one comes first. -/
def all : List Mark :=
  [.root, .current, .descend, .point, .openBracket, .closeBracket, .star, .comma, .colon,
   .question, .openParen, .closeParen, .eq, .ne, .le, .ge, .lt, .gt, .and, .or, .not]

end Mark

inductive Lexeme where
  | mark (m : Mark)
  | number (n : Number)
  | string (s : String)
  | name (s : String)
  deriving DecidableEq, Repr

namespace Lexeme

def display : Lexeme → String
  | .mark m => Text.quote m.text
  | .number (.int n) => toString n
  | .number (.double x) => x.text .plain
  | .string s => Text.quote s
  | .name s => Text.quote s

end Lexeme

structure Token where
  lexeme : Lexeme
  offset : Nat
  size : Nat
  deriving DecidableEq, Repr

inductive Error where
  | empty
  | badCharacter (c : Char) (source : String) (offset : Nat)
  /-- Something else was needed at this place. -/
  | unexpected (message source : String) (offset : Nat) (found : String)
  /-- A path inside a filter cannot be written as a dot path. -/
  | filterPath (e : PathError)
  | limit (l : Limit)
  deriving DecidableEq, Repr

namespace Error

def message : Error → String
  | .empty => "Empty JSONPath"
  | .badCharacter c source offset =>
    "Unexpected character " ++ Text.quote c.toString ++ " in JSONPath '" ++ source ++ "' at " ++
      toString offset
  | .unexpected message source offset found =>
    message ++ " in JSONPath '" ++ source ++ "' at " ++ toString offset ++ ", found " ++ found
  | .filterPath e => e.message
  | .limit l => l.message

end Error

/-! ## One token -/

/-- The longest mark at the start of a text. -/
def mark? (cs : List Char) : Option Mark :=
  Mark.all.find? fun m => m.text.toList.isPrefixOf cs

/-- The digits after a point that digits follow. -/
def fractionDigits : List Char → List Char
  | '.' :: rest => rest.takeWhile Text.isDigit
  | _ => []

/-- A number and its length: digits after an optional minus sign, and
digits after an optional point, which make it a double. -/
def number? (cs : List Char) : Option (Except Limit Number × Nat) :=
  let (negative, body) := match cs with
    | '-' :: rest => (true, rest)
    | _ => (false, cs)
  let whole := body.takeWhile Text.isDigit
  if whole.isEmpty then none
  else
    let fraction := fractionDigits (body.drop whole.length)
    let size := (if negative then 1 else 0) + whole.length
    if fraction.isEmpty then
      let n : Int := Text.digitsValue whole
      let value := if Limit.numeralDigits < whole.length then .error (.longNumeral whole.length)
        else .ok (.int (if negative then -n else n))
      some (value, size)
    else
      let digits := Text.digitsValue (whole ++ fraction)
      some (.ok (.double (.ofDecimal negative digits (-fraction.length))),
        size + 1 + fraction.length)

/-- What stands before the closing quote `q`, escapes included. -/
def stringBody? (q : Char) : List Char → Option (List Char)
  | [] => none
  | '\\' :: c :: rest => if c = '\n' then none else (stringBody? q rest).map ('\\' :: c :: ·)
  | c :: rest =>
    if c = q then some []
    else if c = '\\' then none
    else (stringBody? q rest).map (c :: ·)

def isNameStart (c : Char) : Bool := ('A' ≤ c && c ≤ 'Z') || ('a' ≤ c && c ≤ 'z') || c = '_'

def isNameChar (c : Char) : Bool := Text.isWord c || c = '-'

/-- A quoted string or a name, and its length. -/
def word? : List Char → Option (Lexeme × Nat)
  | [] => none
  | c :: rest =>
    if c = '"' ∨ c = '\'' then
      (stringBody? c rest).map fun body =>
        (.string (String.ofList (Text.unescape body)), body.length + 2)
    else if isNameStart c then
      let name := c :: rest.takeWhile isNameChar
      some (.name (String.ofList name), name.length)
    else none

/-- The token at the start of a text and its length. -/
def lexeme? (cs : List Char) : Option (Except Limit Lexeme × Nat) :=
  match mark? cs with
  | some m => some (.ok (.mark m), m.text.length)
  | none =>
    match number? cs with
    | some (n, size) => some (n.map .number, size)
    | none => (word? cs).map fun p => (.ok p.1, p.2)

/-! ## All tokens -/

/-- The tokens of the text `cs`, which stands at `offset` of the source.
The fuel is its length, and every token takes a character. -/
def scanFrom (source : String) : Nat → List Char → Nat → Except Error (List Token)
  | 0, _, _ => .ok []
  | fuel + 1, cs, offset =>
    match cs with
    | [] => .ok []
    | c :: rest =>
      if Text.isBlank c then scanFrom source fuel rest (offset + 1)
      else
        match lexeme? cs with
        | none => .error (.badCharacter c source offset)
        | some (.error l, _) => .error (.limit l)
        | some (.ok lexeme, size) => do
          let tokens ← scanFrom source fuel (cs.drop size) (offset + size)
          .ok (⟨lexeme, offset, size⟩ :: tokens)

def scan (source : String) : Except Error (List Token) :=
  scanFrom source (source.length + 1) source.toList 0

end Query

end Conduit
