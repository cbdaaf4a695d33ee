/-!
# Places in a YAML text

Layout matters in YAML, so a place in a text knows its line and column.
Where the text has ended, the end mark stands, a character that no text
holds. Line ends of two characters have been made one before.

YAML is read by PyYAML, a library on its own. The modules on YAML stand for
its scanner, its parser and its safe constructor.
-/

namespace Conduit

namespace Yaml

def endMark : Char := '\x00'

/-- The characters that end a line. -/
def isBreak (c : Char) : Bool := c = '\n' || c = '\x85' || c = '\u2028' || c = '\u2029'

/-- A line end as scalars hold it: only two of them are kept as they are. -/
def breakText (c : Char) : Char := if c = '\u2028' || c = '\u2029' then c else '\n'

def endsLine (c : Char) : Bool := c = endMark || isBreak c

/-- The characters that may follow an indicator. -/
def endsWord (c : Char) : Bool := endsLine c || c = ' ' || c = '\t'

/-- The characters that may follow a directive's name or a tag. -/
def endsName (c : Char) : Bool := endsLine c || c = ' '

/-- The byte order mark, which takes no column. -/
def byteOrderMark : Char := '\uFEFF'

/-- Whether a text may hold a character at all. -/
def isPrintable (c : Char) : Bool :=
  c = '\t' || c = '\n' || c = '\r' || c = '\x85' || (' ' ≤ c && c ≤ '~') ||
    ('\u00A0' ≤ c && c ≤ '\uFFFD') || 0x10000 ≤ c.toNat

structure Cursor where
  rest : List Char
  index : Nat := 0
  line : Nat := 0
  column : Nat := 0

namespace Cursor

def peek (c : Cursor) : Char := c.rest.headD endMark

/-- The character `n` places on. -/
def peekAt (n : Nat) (c : Cursor) : Char := (c.rest.drop n).headD endMark

def advance (c : Cursor) : Cursor :=
  match c.rest with
  | [] => c
  | ch :: rest =>
    if isBreak ch then ⟨rest, c.index + 1, c.line + 1, 0⟩
    else ⟨rest, c.index + 1, c.line, if ch = byteOrderMark then c.column else c.column + 1⟩

def skip : Nat → Cursor → Cursor
  | 0, c => c
  | n + 1, c => skip n c.advance

/-- The characters from here on that satisfy a condition, and what follows. -/
def span (holds : Char → Bool) (c : Cursor) : List Char × Cursor :=
  let cs := c.rest.takeWhile holds
  (cs, c.skip cs.length)

def skipWhile (holds : Char → Bool) (c : Cursor) : Cursor := (c.span holds).2

/-- Whether a line starts here that separates documents. -/
def atMarker (c : Cursor) : Bool :=
  match c.rest with
  | '-' :: '-' :: '-' :: rest => endsWord (rest.headD endMark)
  | '.' :: '.' :: '.' :: rest => endsWord (rest.headD endMark)
  | _ => false

/-- How many characters there are before the next token, and whether a line
ends among them; a comment goes to the end of its line. -/
def gap (inComment crossed : Bool) : List Char → Nat × Bool
  | [] => (0, crossed)
  | ch :: rest =>
    if isBreak ch then
      let (n, crossed) := gap false true rest
      (n + 1, crossed)
    else if inComment || ch = ' ' || ch = '#' then
      let (n, crossed) := gap (inComment || ch = '#') crossed rest
      (n + 1, crossed)
    else (0, crossed)

/-- The rest of a line that may hold nothing but a comment, if it holds
nothing else. -/
def skipLine? (c : Cursor) : Option Cursor :=
  let c := c.skipWhile (· = ' ')
  let c := if c.peek = '#' then c.skipWhile (!endsLine ·) else c
  if endsLine c.peek then some c.advance else none

end Cursor

end Yaml

end Conduit
