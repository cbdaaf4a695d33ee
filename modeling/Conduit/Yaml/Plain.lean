import Conduit.Yaml.Cursor

/-!
# Plain scalars

A plain scalar is text without quotes. It ends before what would be an
indicator, and goes on over line ends as long as lines are indented: one
line end between two lines becomes a space, more lose one of them.

This stands for a part of the scanner of PyYAML.
-/

namespace Conduit

namespace Yaml

namespace Plain

def flowMarks : List Char := [',', '[', ']', '\x7b', '\x7d']

/-- Whether a plain scalar can hold a character in front of `next`. -/
def holds (inFlow : Bool) (ch next : Char) : Bool :=
  !(endsWord ch || (ch = ':' && (endsWord next || (inFlow && flowMarks.contains next))) ||
    (inFlow && (ch = '?' || flowMarks.contains ch)))

/-- The characters from here on that stand on one line without a gap. -/
def run (inFlow : Bool) : List Char → List Char
  | [] => []
  | ch :: rest => if holds inFlow ch (rest.headD endMark) then ch :: run inFlow rest else []

/-- The characters that mean something at the start of a token. -/
def indicators : List Char :=
  ['-', '?', ':', ',', '[', ']', '\x7b', '\x7d', '#', '&', '*', '!', '|', '>', '\'', '"', '%', '@',
    '\x60']

def starts (inFlow : Bool) (c : Cursor) : Bool :=
  let ch := c.peek
  if ch = '-' then !endsWord (c.peekAt 1)
  else if ch = '?' || ch = ':' then !inFlow && !endsWord (c.peekAt 1)
  else !endsWord ch && !indicators.contains ch

/-- Line ends and indentation, up to text or to the end of the document;
there the line ends do not count. The fuel is the length of the text. -/
def breaks : Nat → Cursor → List Char → Option (List Char) × Cursor
  | 0, c, found => (some found.reverse, c)
  | fuel + 1, c, found =>
    if c.peek = ' ' then breaks fuel c.advance found
    else if isBreak c.peek then
      if c.advance.atMarker then (none, c.advance)
      else breaks fuel c.advance (breakText c.peek :: found)
    else (some found.reverse, c)

/-- What stands between two runs. -/
structure Gap where
  text : List Char
  /-- Whether it goes over a line end. -/
  crossed : Bool

def gap (c : Cursor) : Gap × Cursor :=
  let (blanks, c) := c.span (· = ' ')
  if isBreak c.peek then
    let first := breakText c.peek
    let next := c.advance
    if next.atMarker then (⟨[], true⟩, next)
    else match breaks next.rest.length next [] with
      | (none, c) => (⟨[], true⟩, c)
      | (some more, c) =>
        (⟨if first ≠ '\n' then first :: more else if more.isEmpty then [' '] else more, true⟩, c)
  else (⟨blanks, false⟩, c)

/-- The rest of a plain scalar after a gap: what was read, whether the last
gap goes over a line end, and what follows. -/
def more (inFlow : Bool) (indent : Int) : Nat → Cursor → Gap → List Char →
    List Char × Bool × Cursor
  | 0, c, before, read => (read, before.crossed, c)
  | fuel + 1, c, before, read =>
    let here := if c.peek = '#' then [] else run inFlow c.rest
    if here.isEmpty then (read, before.crossed, c)
    else
      let read := read ++ before.text ++ here
      let (after, c) := gap (c.skip here.length)
      if after.text.isEmpty || c.peek = '#' || (!inFlow && c.column < indent) then
        (read, after.crossed, c)
      else more inFlow indent fuel c after read

/-- A plain scalar whose further lines have to be indented by `indent`. -/
def read (inFlow : Bool) (indent : Int) (c : Cursor) : String × Bool × Cursor :=
  let (text, crossed, c) := more inFlow indent (c.rest.length + 1) c ⟨[], false⟩ []
  (String.ofList text, crossed, c)

end Plain

end Yaml

end Conduit
