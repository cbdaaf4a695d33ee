import Conduit.Failure
import Conduit.Path.Printer
import Conduit.Path.Walk
import Conduit.Template.Engine
import Conduit.Template.Tag

/-!
# Templates

A template is text with placeholders. Comments `{# … #}` vanish, the text
of `{% raw %} … {% endraw %}` is kept as it stands, and a hyphen inside
such a mark strips the blanks on its side. A raw text shows its
placeholders by number, yet every placeholder, shown or not, has to lead
to a value. Of all tags only those that print are accepted; what they
print is left to an engine.
-/

namespace Conduit

/-- A part of what a template prints. -/
inductive Piece where
  | text (cs : List Char)
  /-- The value of a placeholder, by its number. -/
  | slot (n : Nat)
  /-- What a tag prints. -/
  | print (source : Template.TagSource)
  deriving DecidableEq, Repr

structure Template where
  /-- The template as it was written. -/
  text : String
  paths : List DotPath
  pieces : List Piece
  deriving DecidableEq, Repr

namespace Template

/-! ## Pieces -/

/-- A character as it stands, and a slot as raw text shows it. -/
def rawChars : Mark → List Char
  | .char c => [c]
  | .slot n => "\x7b\x7b _v[".toList ++ (toString n).toList ++ "] \x7d\x7d".toList

def isBlankMark : Mark → Bool
  | .char c => Text.isBlank c
  | .slot _ => false

def dropBlankMarks (marks : List Mark) : List Mark := marks.dropWhile isBlankMark

/-- Marks without the blanks at their end, if they are to be stripped. -/
def stripEnd (strip : Bool) (marks : List Mark) : List Mark :=
  if strip then (marks.reverse.dropWhile isBlankMark).reverse else marks

/-- The sign after the opening of a mark: whether it strips, and what
follows it. -/
def control : List Mark → Bool × List Mark
  | .char '-' :: rest => (true, rest)
  | .char '+' :: rest => (false, rest)
  | rest => (false, rest)

/-- The given characters at the start of marks, and what follows them. -/
def expect? : List Char → List Mark → Option (List Mark)
  | [], marks => some marks
  | c :: cs, .char d :: rest => if c = d then expect? cs rest else none
  | _, _ => none

/-- The end of a comment, if it stands here. -/
def commentEnd? : List Mark → Option (List Mark)
  | .char '+' :: .char '#' :: .char '\x7d' :: rest => some rest
  | .char '-' :: .char '#' :: .char '\x7d' :: rest => some (dropBlankMarks rest)
  | .char '#' :: .char '\x7d' :: rest => some rest
  | _ => none

/-- The marks after a comment. A comment that opens at the very end of the
template is none. -/
def afterComment? : List Mark → Option (List Mark)
  | [] => none
  | m :: rest =>
    match commentEnd? (m :: rest) with
    | some after => some after
    | none => afterComment? rest

/-- The marks after the opening of a raw text, from behind `{%` on. -/
def rawStart? (marks : List Mark) : Option (List Mark) := do
  let rest ← expect? "raw".toList (dropBlankMarks (control marks).2)
  match dropBlankMarks rest with
  | .char '-' :: .char '%' :: .char '\x7d' :: after => some (dropBlankMarks after)
  | .char '%' :: .char '\x7d' :: after => some after
  | _ => none

/-- The end of a raw text, if it stands here: whether it strips the text
before it, and the marks after it. -/
def rawEnd? : List Mark → Option (Bool × List Mark)
  | .char '\x7b' :: .char '%' :: rest => do
    let (strip, rest) := control rest
    let rest ← expect? "endraw".toList (dropBlankMarks rest)
    let after ← Word.afterEnd? (dropBlankMarks rest)
    pure (strip, after)
  | _ => none

/-- A raw text up to its end, and the marks after that. -/
def rawBody? : List Mark → Option (List Mark × List Mark)
  | [] => none
  | m :: rest =>
    match rawEnd? (m :: rest) with
    | some (strip, after) => some (stripEnd strip [], after)
    | none => (rawBody? rest).map fun p => (m :: p.1, p.2)

/-- Whether the end of the raw text in these marks strips the text. -/
def rawStrips : List Mark → Bool
  | [] => false
  | m :: rest =>
    match rawEnd? (m :: rest) with
    | some (strip, _) => strip
    | none => rawStrips rest

/-- A part of a template before its tags are judged. -/
inductive Part where
  | piece (p : Piece)
  | tag (words : List Word) (source : TagSource)
  deriving DecidableEq

/-- Marks that are not empty as a piece of text. -/
def textPart (marks : List Mark) : List Part :=
  if marks.isEmpty then [] else [.piece (.text (marks.flatMap rawChars))]

/-- The tag at the start of marks, from behind its opening on, up to the marks
after it. -/
def sourceOf (marks after : List Mark) : TagSource :=
  ⟨(marks.take (marks.length - after.length)).flatMap rawChars, after.length⟩

/-- The parts of a template; `read` holds the text since the last of them,
in reverse. None if a mark is not closed or a tag cannot be cut into
words. The fuel is the number of marks. -/
def parts : Nat → List Mark → List Mark → Option (List Part)
  | 0, read, _ => some (textPart read.reverse)
  | _, read, [] => some (textPart read.reverse)
  | fuel + 1, read, .slot n :: rest => do
    let more ← parts fuel [] rest
    pure (textPart read.reverse ++ .piece (.slot n) :: more)
  | _ + 1, _, .char '\x7b' :: .char '\x7b' :: _ => none
  | fuel + 1, read, .char '\x7b' :: .char '#' :: rest => do
    let (strip, rest) := control rest
    let after ← if rest.isEmpty then some [] else afterComment? rest
    let more ← parts fuel [] after
    pure (textPart (stripEnd strip read.reverse) ++ more)
  | fuel + 1, read, .char '\x7b' :: .char '%' :: rest => do
    let before := textPart (stripEnd (control rest).1 read.reverse)
    match rawStart? rest with
    | some [] => pure before
    | some inner => do
      let (body, after) ← rawBody? inner
      let more ← parts fuel [] after
      pure (before ++ textPart (stripEnd (rawStrips inner) body) ++ more)
    | none => do
      let rest := (control rest).2
      let (words, after) ← Word.scan (rest.length + 1) false [] rest
      let more ← parts fuel [] after
      pure (before ++ .tag words (sourceOf rest after) :: more)
  | fuel + 1, read, m :: rest => parts fuel (m :: read) rest

/-! ## Tags -/

/-- Whether a part may stand in a required block. -/
def isBlankPart : Part → Bool
  | .piece (.text cs) => cs.all Text.isBlank
  | .piece _ => false
  | .tag _ _ => true

/-- Whether the tags among the parts are well formed and closed. -/
def wellNested : List Tag.Open → List Part → Bool
  | opened, [] => opened.isEmpty
  | opened, .tag words _ :: rest =>
    match Tag.step opened words with
    | some opened => wellNested opened rest
    | none => false
  | opened, p :: rest =>
    (match opened with
      | o :: _ => !o.required || isBlankPart p
      | [] => true) && wellNested opened rest

/-- The pieces of a template whose tags all print, none of them inside
another. -/
def piecesOf? : List Part → Option (List Piece)
  | [] => some []
  | .piece p :: rest => (piecesOf? rest).map (p :: ·)
  | .tag words source :: rest =>
    if Tag.isPrint words then (piecesOf? rest).map (.print source :: ·) else none

/-- The number of digits of the first integer in a tag that is too long. -/
def longNumeral? (ps : List Part) : Option Nat :=
  ps.findSome? fun
    | .tag words _ => words.findSome? Word.longDigits?
    | .piece _ => none

/-! ## Reading and rendering -/

def parse (text : String) : Except Error Template := do
  let cs := text.toList
  let (marks, paths) ← cut text cs.length 0 cs
  let marks := joinLines marks
  match parts marks.length [] marks with
  | none => .error (.malformed text)
  | some ps =>
    match longNumeral? ps, piecesOf? ps with
    | some digits, _ => .error (.limit (.longNumeral digits))
    | none, some pieces => .ok ⟨text, paths, pieces⟩
    | none, none => if wellNested [] ps then .error (.tag text) else .error (.malformed text)

/-- The value of one placeholder; a failure shows the path in its
canonical form. -/
def resolvePath (fields : Fields Value) (p : DotPath) : Except Failure Value :=
  match DotPath.format p.steps with
  | .error l => .error (.limit l)
  | .ok text => DotPath.resolve { p with text := text } fields

/-- What one expression of a tag puts into the text. -/
def printedText : Except Exception Printed → Except Failure String
  | .ok printed => printed.insertion.mapError .limit
  | .error e => .error (.raised e)

/-- What a piece prints, given the paths of the placeholders, the fields that
they lead into and the values that they lead to. -/
def pieceText (engine : Engine) (paths : List DotPath) (fields : Fields Value)
    (values : List Value) : Piece → Except Failure String
  | .text cs => .ok (String.ofList cs)
  | .slot n => (insertion (values[n]?.getD .null)).mapError .limit
  | .print source => do
    let texts ← (engine.print source paths fields).mapM printedText
    .ok (String.join texts)

/-- The tags of a template. -/
def sources (t : Template) : List TagSource :=
  t.pieces.filterMap fun
    | .print source => some source
    | _ => none

/-- Whether a template is text and placeholders only. -/
def isPlain (t : Template) : Bool := t.sources.isEmpty

/-- The text of a template once the values of its placeholders are found. All
its tags are compiled before anything is printed. -/
def output (engine : Engine) (t : Template) (fields : Fields Value) (values : List Value) :
    Except Failure String := do
  (forM t.sources engine.compile).mapError .raised
  let texts ← t.pieces.mapM (pieceText engine t.paths fields values)
  .ok (String.join texts)

/-- The text that a template makes of the given fields. -/
def render (engine : Engine) (t : Template) (fields : Fields Value) : Except Failure String := do
  let values ← t.paths.mapM (resolvePath fields)
  t.output engine fields values

end Template

end Conduit
