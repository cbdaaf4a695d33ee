import Conduit.Yaml.Cursor
import Conduit.Yaml.Error

/-!
# Block scalars

A block scalar is an indented block of lines. Literal ones keep their
line ends; in folded ones a line end between two lines that are not
indented further becomes a space. The header may give the indentation,
and whether the line ends behind the last line are kept, all but one of
them dropped, or all dropped.

This stands for a part of the scanner of PyYAML.
-/

namespace Conduit

namespace Yaml

namespace Block

/-- What becomes of the line ends behind the last line. -/
inductive Chomping where
  | clip | strip | keep
  deriving DecidableEq, Repr

structure Header where
  chomping : Chomping := .clip
  /-- The indentation of the block against the one around it. -/
  increment : Option Nat := none

def chomping? : Char → Option Chomping
  | '+' => some .keep
  | '-' => some .strip
  | _ => none

def digit? (c : Char) : Option Nat := if '0' ≤ c && c ≤ '9' then some (c.toNat - 48) else none

/-- The two parts of a header in either order, each of which may be
missing. -/
def headerParts (c : Cursor) : Header × Cursor :=
  match chomping? c.peek with
  | some chomping =>
    match digit? c.advance.peek with
    | some n => (⟨chomping, some n⟩, c.skip 2)
    | none => (⟨chomping, none⟩, c.advance)
  | none =>
    match digit? c.peek with
    | some n =>
      match chomping? c.advance.peek with
      | some chomping => (⟨chomping, some n⟩, c.skip 2)
      | none => (⟨.clip, some n⟩, c.advance)
    | none => ({}, c)

/-- A header and the rest of its line, in which only a comment may stand. -/
def header (c : Cursor) : Except Error (Header × Cursor) :=
  let (h, c) := headerParts c
  if h.increment = some 0 || !endsName c.peek then .error .malformed
  else match c.skipLine? with
    | some c => .ok (h, c)
    | none => .error .malformed

/-- Line ends and spaces before the first line that is not empty, with the
largest column that spaces lead to. The fuel is the length of the text. -/
def leading : Nat → Cursor → List Char → Nat → List Char × Nat × Cursor
  | 0, c, found, widest => (found.reverse, widest, c)
  | fuel + 1, c, found, widest =>
    if c.peek = ' ' then leading fuel c.advance found (max widest c.advance.column)
    else if isBreak c.peek then leading fuel c.advance (breakText c.peek :: found) widest
    else (found.reverse, widest, c)

def indentTo (indent : Nat) (c : Cursor) : Cursor :=
  c.skip ((c.rest.takeWhile (· = ' ')).length.min (indent - c.column))

/-- Empty lines inside a block. -/
def breaks (indent : Nat) : Nat → Cursor → List Char → List Char × Cursor
  | 0, c, found => (found.reverse, c)
  | fuel + 1, c, found =>
    let c := indentTo indent c
    if isBreak c.peek then breaks indent fuel c.advance (breakText c.peek :: found)
    else (found.reverse, c)

/-- What stands between a line and the next one in place of its line end
and of the empty lines behind it. -/
def joint (folded : Bool) (lineBreak : List Char) (startsPlain nextPlain : Bool)
    (empty : List Char) : List Char :=
  if folded && lineBreak == ['\n'] && startsPlain && nextPlain then
    if empty.isEmpty then [' '] else []
  else lineBreak

/-- The lines of a block: what was read, the last line end, and the empty
lines behind it. -/
def lines (folded : Bool) (indent : Nat) : Nat → Cursor → List Char → List Char →
    List Char × List Char × List Char × Cursor
  | 0, c, empty, read => (read, [], empty, c)
  | fuel + 1, c, empty, read =>
    if c.column ≠ indent || c.peek = endMark then (read, [], empty, c)
    else
      let read := read ++ empty
      let plain := !(c.peek = ' ' || c.peek = '\t')
      let (line, c) := c.span (!endsLine ·)
      let read := read ++ line
      let lineBreak := if isBreak c.peek then [breakText c.peek] else []
      let (empty, c) :=
        breaks indent (c.rest.length + 1) (if lineBreak.isEmpty then c else c.advance) []
      if c.column = indent && c.peek ≠ endMark then
        let nextPlain := !(c.peek = ' ' || c.peek = '\t')
        lines folded indent fuel c empty (read ++ joint folded lineBreak plain nextPlain empty)
      else (read, lineBreak, empty, c)

/-- A block scalar, from its indicator on, inside a block of the given
indentation. -/
def read (folded : Bool) (outer : Int) (c : Cursor) : Except Error (String × Cursor) := do
  let (h, c) ← header c.advance
  let least := (max 1 (outer + 1)).toNat
  let (empty, indent, c) := match h.increment with
    | none =>
      let (empty, widest, c) := leading (c.rest.length + 1) c [] 0
      (empty, max least widest, c)
    | some n =>
      let indent := least + n - 1
      let (empty, c) := breaks indent (c.rest.length + 1) c []
      (empty, indent, c)
  let (text, lineBreak, empty, c) := lines folded indent (c.rest.length + 1) c empty []
  let tail := match h.chomping with
    | .strip => []
    | .clip => lineBreak
    | .keep => lineBreak ++ empty
  .ok (String.ofList (text ++ tail), c)

end Block

end Yaml

end Conduit
