import Conduit.Text.Numeral
import Conduit.Yaml.Cursor
import Conduit.Yaml.Error

/-!
# Quoted scalars

Text in single quotes holds every character as it is; two quotes stand
for one. Text in double quotes has escapes besides. In both, blanks
around a line end count as the line end alone, one line end becomes a
space, and more lose one of them.

This stands for a part of the scanner of PyYAML.
-/

namespace Conduit

namespace Yaml

namespace Quoted

def escapes : List (Char × Char) := [
  ('0', '\x00'), ('a', '\x07'), ('b', '\x08'), ('t', '\t'), ('\t', '\t'), ('n', '\n'),
  ('v', '\x0b'), ('f', '\x0c'), ('r', '\r'), ('e', '\x1b'), (' ', ' '), ('"', '"'),
  ('\\', '\\'), ('/', '/'), ('N', '\x85'), ('_', '\u00A0'), ('L', '\u2028'), ('P', '\u2029')]

/-- The number of digits of an escape that gives a character's number. -/
def codeLength? : Char → Option Nat
  | 'x' => some 2
  | 'u' => some 4
  | 'U' => some 8
  | _ => none

/-- The number that `n` hexadecimal digits write. -/
def code? (n : Nat) (cs : List Char) : Option Nat :=
  if cs.length < n then none
  else (cs.take n).foldlM (fun value c => (Text.hexValue? c).map (16 * value + ·)) 0

/-- The character of a number; a half of a pair is none on its own. -/
def characterOf (code : Nat) : Except Error Char :=
  if 0x110000 ≤ code then .error (.character code)
  else if 0xD800 ≤ code ∧ code < 0xE000 then .ok '\uFFFD'
  else .ok (Char.ofNat code)

def isBlank (c : Char) : Bool := c = ' ' || c = '\t'

/-- Line ends with the blanks around them, up to text. A document cannot
end here. The fuel is the length of the text. -/
def breaks : Nat → Cursor → List Char → Except Error (List Char × Cursor)
  | 0, _, _ => .error .malformed
  | fuel + 1, c, found =>
    if c.atMarker then .error .malformed
    else
      let c := c.skipWhile isBlank
      if isBreak c.peek then breaks fuel c.advance (breakText c.peek :: found)
      else .ok (found.reverse, c)

/-- What blanks and line ends between two words come to. -/
def gap (c : Cursor) : Except Error (List Char × Cursor) := do
  let (blanks, c) := c.span isBlank
  if isBreak c.peek then
    let first := breakText c.peek
    let (more, after) ← breaks (c.rest.length + 1) c.advance []
    .ok (if first ≠ '\n' then first :: more else if more.isEmpty then [' '] else more, after)
  else .ok (blanks, c)

/-- An escape, behind its backslash. -/
def escape (c : Cursor) : Except Error (List Char × Cursor) := do
  if isBreak c.peek then breaks (c.rest.length + 1) c.advance []
  else match escapes.lookup c.peek with
    | some ch => .ok ([ch], c.advance)
    | none =>
      match codeLength? c.peek with
      | none => .error .malformed
      | some n =>
        match code? n c.advance.rest with
        | none => .error .malformed
        | some code => .ok ([← characterOf code], c.advance.skip n)

/-- The rest of a quoted scalar; `read` is what was read, backwards. -/
def body (double : Bool) : Nat → Cursor → List Char → Except Error (String × Cursor)
  | 0, _, _ => .error .malformed
  | fuel + 1, c, read =>
    let ch := c.peek
    if ch = endMark then .error .malformed
    else if isBlank ch || isBreak ch then do
      let (text, c) ← gap c
      body double fuel c (text.reverse ++ read)
    else if double && ch = '\\' then do
      let (text, c) ← escape c.advance
      body double fuel c (text.reverse ++ read)
    else if !double && ch = '\'' && c.peekAt 1 = '\'' then
      body double fuel (c.skip 2) ('\'' :: read)
    else if ch = (if double then '"' else '\'') then .ok (String.ofList read.reverse, c.advance)
    else body double fuel c.advance (ch :: read)

/-- A quoted scalar, from its opening quote on. -/
def read (double : Bool) (c : Cursor) : Except Error (String × Cursor) :=
  body double (c.rest.length + 1) c.advance []

end Quoted

end Yaml

end Conduit
