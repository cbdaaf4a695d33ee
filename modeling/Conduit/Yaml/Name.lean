import Conduit.Yaml.Quoted
import Conduit.Yaml.Token

/-!
# Anchors, tags and directives

The tokens that start with an indicator and a name: anchors and aliases,
tags with a handle or written out, and the directives before a document.

This stands for a part of the scanner of PyYAML.
-/

namespace Conduit

namespace Yaml

namespace Name

def isNameChar (c : Char) : Bool := c.isAlphanum || c = '-' || c = '_'

/-- A name of at least one character. -/
def word (c : Cursor) : Except Error (String × Cursor) :=
  match c.span isNameChar with
  | ([], _) => .error .malformed
  | (cs, c) => .ok (String.ofList cs, c)

/-- The name of an anchor or an alias, behind its indicator. -/
def anchorName (c : Cursor) : Except Error (String × Cursor) := do
  let (name, c) ← word c.advance
  if endsWord c.peek || ['?', ':', ',', ']', '\x7d', '%', '@', '\x60'].contains c.peek then
    .ok (name, c)
  else .error .malformed

/-! ## Tags -/

def isTagChar (c : Char) : Bool := isNameChar c || ";/?:@&=+$,.!~*'()[]".toList.contains c

/-- The bytes of a run of percent escapes. -/
def escapedBytes : List Char → Except Error (List UInt8 × Nat)
  | '%' :: a :: b :: rest =>
    match Text.hexValue? a, Text.hexValue? b with
    | some x, some y => do
      let (bytes, n) ← escapedBytes rest
      .ok (UInt8.ofNat (16 * x + y) :: bytes, n + 3)
    | _, _ => .error .malformed
  | '%' :: _ => .error .malformed
  | _ => .ok ([], 0)

/-- The text behind the handle of a tag; runs of percent escapes write the
bytes of text. The fuel is the length of the text. -/
def tagText : Nat → Cursor → List Char → Except Error (List Char × Cursor)
  | 0, c, read => .ok (read, c)
  | fuel + 1, c, read =>
    if isTagChar c.peek then tagText fuel c.advance (read ++ [c.peek])
    else if c.peek = '%' then do
      let (bytes, n) ← escapedBytes c.rest
      match String.fromUTF8? ⟨bytes.toArray⟩ with
      | some s => tagText fuel (c.skip n) (read ++ s.toList)
      | none => .error .malformed
    else .ok (read, c)

/-- What follows a handle, at least one character of it. -/
def suffix (c : Cursor) : Except Error (String × Cursor) := do
  let (cs, after) ← tagText c.rest.length c []
  if after.index = c.index then .error .malformed else .ok (String.ofList cs, after)

/-- A handle: one or two marks, the second of them behind a name. -/
def handle (c : Cursor) : Except Error (String × Cursor) :=
  if c.peek ≠ '!' then .error .malformed
  else if c.peekAt 1 = ' ' then .ok ("!", c.skip 1)
  else
    let (name, after) := c.advance.span isNameChar
    if after.peek = '!' then .ok (String.ofList ('!' :: name ++ ['!']), after.advance)
    else .error .malformed

/-- Whether a further mark stands in a tag, so that it has a handle that is
more than one mark. -/
def hasHandle (c : Cursor) : Bool := (c.advance.rest.takeWhile (!endsName ·)).contains '!'

def tag (c : Cursor) : Except Error (Token × Cursor) := do
  let (token, c) ←
    if c.peekAt 1 = '<' then do
      let (text, c) ← suffix (c.skip 2)
      if c.peek = '>' then .ok (Token.tag none text, c.advance) else .error .malformed
    else if endsWord (c.peekAt 1) then .ok (Token.tag none "!", c.advance)
    else do
      let (handle, c) ← if hasHandle c then handle c else .ok ("!", c.advance)
      let (text, c) ← suffix c
      .ok (Token.tag (some handle) text, c)
  if endsName c.peek then .ok (token, c) else .error .malformed

/-! ## Directives -/

def digits (c : Cursor) : Except Error (Nat × Cursor) :=
  match c.span Char.isDigit with
  | ([], _) => .error .malformed
  | (cs, c) => .ok (Text.decimalValue cs, c)

def version (c : Cursor) : Except Error (Directive × Cursor) := do
  let (major, c) ← digits (c.skipWhile (· = ' '))
  if c.peek ≠ '.' then .error .malformed
  else
    let (_, c) ← digits c.advance
    if endsName c.peek then .ok (.version major, c) else .error .malformed

def tagHandle (c : Cursor) : Except Error (Directive × Cursor) := do
  let (handle, c) ← handle (c.skipWhile (· = ' '))
  if c.peek ≠ ' ' then .error .malformed
  else
    let (meaning, c) ← suffix (c.skipWhile (· = ' '))
    if endsName c.peek then .ok (.tagHandle handle meaning, c) else .error .malformed

def directive (c : Cursor) : Except Error (Token × Cursor) := do
  let (name, c) ← word c.advance
  if !endsName c.peek then .error .malformed
  else
    let (d, c) ← match name with
      | "YAML" => version c
      | "TAG" => tagHandle c
      | _ => .ok (.other, c.skipWhile (!endsLine ·))
    match c.skipLine? with
    | some c => .ok (.directive d, c)
    | none => .error .malformed

end Name

end Yaml

end Conduit
