import Conduit.Yaml.Block
import Conduit.Yaml.Name
import Conduit.Yaml.Plain

/-!
# The tokens of a text

A text is cut into tokens in one pass. Indentation is kept as a stack of
columns: a token further to the right may open a block, one further to
the left closes blocks. A key is told by the colon behind it, so a token
that may start one is remembered until its line has ended; the mark of
the key is then put in front of it.

This stands for the scanner of PyYAML.
-/

namespace Conduit

namespace Yaml

/-- A token that may turn out to start a key. -/
structure Candidate where
  /-- The number of tokens before it. -/
  before : Nat
  /-- Whether nothing but a key can stand there. -/
  needed : Bool
  index : Nat
  line : Nat
  column : Nat

/-- A text that is being cut into tokens. -/
structure Layout where
  cursor : Cursor
  /-- The tokens so far, backwards. -/
  tokens : List Token := []
  /-- The columns of the blocks that are open, innermost first. -/
  columns : List Int := []
  /-- Whether a key may start here. -/
  keyAllowed : Bool := true
  candidate : Option Candidate := none
  /-- The candidates outside each open bracket, innermost first. -/
  outside : List (Option Candidate) := []

namespace Layout

def inFlow (s : Layout) : Bool := !s.outside.isEmpty

/-- The column of the innermost block. -/
def indent (s : Layout) : Int := s.columns.headD (-1)

def emit (t : Token) (s : Layout) : Layout := { s with tokens := t :: s.tokens }

/-- A token of `n` characters at the cursor. -/
def take (n : Nat) (t : Token) (s : Layout) : Layout :=
  { s.emit t with cursor := s.cursor.skip n }

/-- Puts tokens in front of all but the first `before`. -/
def emitBehind (before : Nat) (ts : List Token) (s : Layout) : Layout :=
  let later := s.tokens.length - before
  { s with tokens := s.tokens.take later ++ ts.reverse ++ s.tokens.drop later }

/-! ## Blocks -/

/-- Closes the blocks to the right of a column. Inside brackets there are
none. -/
def close (column : Int) (s : Layout) : Layout :=
  if s.inFlow then s
  else
    let ended := (s.columns.takeWhile (column < ·)).length
    { s with
      columns := s.columns.drop ended, tokens := List.replicate ended .blockEnd ++ s.tokens }

/-- Whether a token at a column opens a block. -/
def opens (column : Int) (s : Layout) : Bool := !s.inFlow && s.indent < column

def openAt (column : Int) (s : Layout) : Layout := { s with columns := column :: s.columns }

/-- Opens a block at the cursor with the given token, if there is none. -/
def openHere (t : Token) (s : Layout) : Layout :=
  if s.opens s.cursor.column then (s.emit t).openAt s.cursor.column else s

/-! ## Keys -/

/-- A candidate is out of date on another line, or after too much text. -/
def Candidate.isStale (c : Cursor) (k : Candidate) : Bool :=
  k.line ≠ c.line || k.index + 1024 < c.index

/-- What is left of a candidate when a key cannot come any more. -/
def settle (isOver : Candidate → Bool) : Option Candidate → Except Error (Option Candidate)
  | none => .ok none
  | some k =>
    if !isOver k then .ok (some k)
    else if k.needed then .error .malformed
    else .ok none

def dropStale (s : Layout) : Except Error Layout := do
  let isStale := Candidate.isStale s.cursor
  .ok { s with
    candidate := ← settle isStale s.candidate, outside := ← s.outside.mapM (settle isStale) }

def dropCandidate (s : Layout) : Except Error Layout := do
  .ok { s with candidate := ← settle (fun _ => true) s.candidate }

/-- Remembers that the token to come may start a key. -/
def mayStartKey (s : Layout) : Except Error Layout :=
  if !s.keyAllowed then .ok s
  else do
    let s ← s.dropCandidate
    let c := s.cursor
    .ok { s with candidate := some {
      before := s.tokens.length, needed := !s.inFlow && s.indent = c.column
      index := c.index, line := c.line, column := c.column } }

/-! ## One token -/

/-- A token that ends all blocks, with what it leaves of the text. -/
def outermost (read : Cursor → Except Error (Token × Cursor)) (s : Layout) :
    Except Error Layout := do
  let s ← (s.close (-1)).dropCandidate
  let (t, cursor) ← read s.cursor
  .ok { s.emit t with cursor, keyAllowed := false }

def marker (t : Token) : Layout → Except Error Layout := outermost fun c => .ok (t, c.skip 3)

/-- A bracket that opens; it may itself start a key. -/
def openBracket (t : Token) (s : Layout) : Except Error Layout := do
  let s ← s.mayStartKey
  .ok (take 1 t { s with
    outside := s.candidate :: s.outside, candidate := none, keyAllowed := true })

/-- A bracket that closes. -/
def closeBracket (t : Token) (s : Layout) : Except Error Layout := do
  let s ← s.dropCandidate
  match s.outside with
  | [] => .error .malformed
  | candidate :: outside => .ok (take 1 t { s with outside, candidate, keyAllowed := false })

def flowEntry (s : Layout) : Except Error Layout := do
  .ok (take 1 .flowEntry { ← s.dropCandidate with keyAllowed := true })

/-- The mark of an entry of a block sequence. Inside brackets it is left to
be refused with its surroundings. -/
def blockEntry (s : Layout) : Except Error Layout := do
  if !s.inFlow && !s.keyAllowed then .error .malformed
  else .ok (take 1 .blockEntry { ← (s.openHere .blockSequenceStart).dropCandidate with
    keyAllowed := true })

/-- The mark in front of a key of any form. -/
def explicitKey (s : Layout) : Except Error Layout := do
  if !s.inFlow && !s.keyAllowed then .error .malformed
  else .ok (take 1 .key { ← (s.openHere .blockMappingStart).dropCandidate with
    keyAllowed := !s.inFlow })

/-- The mark between key and value. With a candidate, that is the key. -/
def colon (s : Layout) : Except Error Layout :=
  match s.candidate with
  | some k =>
    let s := { s with candidate := none, keyAllowed := false }
    let s := if s.opens k.column then
        (s.emitBehind k.before [.blockMappingStart, .key]).openAt k.column
      else s.emitBehind k.before [.key]
    .ok (s.take 1 .value)
  | none =>
    if !s.inFlow && !s.keyAllowed then .error .malformed
    else .ok (take 1 .value { s.openHere .blockMappingStart with keyAllowed := !s.inFlow })

/-- A token that may start a key, with what it leaves of the text. -/
def keyLike (read : Cursor → Except Error (Token × Cursor)) (s : Layout) : Except Error Layout := do
  let s ← s.mayStartKey
  let (t, cursor) ← read s.cursor
  .ok { s.emit t with cursor, keyAllowed := false }

def anchor (s : Layout) : Except Error Layout :=
  s.keyLike fun c => do
    let (name, rest) ← Name.anchorName c
    .ok (if c.peek = '*' then .alias name else .anchor name, rest)

def quoted (double : Bool) (s : Layout) : Except Error Layout :=
  s.keyLike fun c => do
    let (text, rest) ← Quoted.read double c
    .ok (.scalar text false, rest)

/-- A block scalar; a key may follow it. -/
def block (folded : Bool) (s : Layout) : Except Error Layout := do
  let s ← s.dropCandidate
  let (text, cursor) ← Block.read folded s.indent s.cursor
  .ok { s.emit (.scalar text false) with cursor, keyAllowed := true }

/-- A plain scalar; a key may follow it if it ends with its line. -/
def plain (s : Layout) : Except Error Layout := do
  let s ← s.mayStartKey
  let (text, crossed, cursor) := Plain.read s.inFlow (s.indent + 1) s.cursor
  .ok { s.emit (.scalar text true) with cursor, keyAllowed := crossed }

def next (s : Layout) : Except Error Layout :=
  let c := s.cursor
  let indicator := endsWord (c.peekAt 1)
  if c.column = 0 && c.peek = '%' then s.outermost Name.directive
  else if c.column = 0 && c.atMarker then
    s.marker (if c.peek = '-' then .documentStart else .documentEnd)
  else match c.peek with
    | '[' => s.openBracket .flowSequenceStart
    | '\x7b' => s.openBracket .flowMappingStart
    | ']' => s.closeBracket .flowSequenceEnd
    | '\x7d' => s.closeBracket .flowMappingEnd
    | ',' => s.flowEntry
    | '*' => s.anchor
    | '&' => s.anchor
    | '!' => s.keyLike Name.tag
    | '\'' => s.quoted false
    | '"' => s.quoted true
    | ch =>
      if ch = '-' && indicator then s.blockEntry
      else if ch = '?' && (s.inFlow || indicator) then s.explicitKey
      else if ch = ':' && (s.inFlow || indicator) then s.colon
      else if ch = '|' && !s.inFlow then s.block false
      else if ch = '>' && !s.inFlow then s.block true
      else if Plain.starts s.inFlow c then s.plain
      else .error .malformed

/-! ## All tokens -/

/-- Goes on to the next token. Outside brackets, a new line may start a
key. -/
def skipGap (s : Layout) : Layout :=
  let c :=
    if s.cursor.index = 0 && s.cursor.peek = byteOrderMark then s.cursor.advance else s.cursor
  let (n, crossed) := Cursor.gap false false c.rest
  { s with cursor := c.skip n, keyAllowed := s.keyAllowed || (crossed && !s.inFlow) }

/-- Cuts the rest of a text into tokens. The fuel is the length of the
text. -/
def run : Nat → Layout → Except Error (List Token)
  | 0, _ => .error .malformed
  | fuel + 1, s => do
    let s ← s.skipGap.dropStale
    let s := s.close s.cursor.column
    if s.cursor.rest.isEmpty then
      .ok (← (s.close (-1)).dropCandidate).tokens.reverse
    else run fuel (← s.next)

end Layout

/-- The tokens of a text, which may hold printable characters only. -/
def Token.scan (cs : List Char) : Except Error (List Token) :=
  if cs.all isPrintable then Layout.run (cs.length + 1) { cursor := { rest := cs } }
  else .error .malformed

end Yaml

end Conduit
