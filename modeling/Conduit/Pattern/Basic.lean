import Conduit.Text.Blank
import Conduit.Text.Digit
import Conduit.Text.Word

/-!
# Patterns

Regular expressions over code points, with captures, references to them,
assertions about the text around a place, and repetitions that take as
much as they can, as little as they can, or never give anything back.
-/

namespace Conduit

inductive CharKind where
  | digit | space | word
  deriving DecidableEq, Repr

inductive Member where
  | range (low high : Nat)
  | kind (k : CharKind) (negated : Bool)
  deriving DecidableEq, Repr

/-- What modifies the meaning of a pattern from the outside. -/
structure Flags where
  ignoreCase : Bool := false
  multiline : Bool := false
  dotAll : Bool := false
  ascii : Bool := false
  /-- Whether the classes of all scripts were asked for by name. -/
  unicode : Bool := false
  verbose : Bool := false
  /-- Whether repetitions are ruled out. -/
  unrepeated : Bool := false
  deriving DecidableEq, Repr

structure CharSet where
  negated : Bool
  members : List Member
  ignoreCase : Bool
  ascii : Bool
  deriving DecidableEq, Repr

/-- An assertion about a place in a text. -/
inductive Anchor where
  | textStart | lineStart | textEnd
  /-- At the end, or before a line feed that ends the text. -/
  | lastLineEnd
  | lineEnd
  | boundary (negated ascii : Bool)
  deriving DecidableEq, Repr

/-- How a repetition chooses the number of rounds. -/
inductive Greed where
  | greedy | lazy | possessive
  deriving DecidableEq, Repr

inductive Pattern where
  | one (set : CharSet)
  | anchor (a : Anchor)
  | sequence (ps : List Pattern)
  | choice (ps : List Pattern)
  | repeated (p : Pattern) (least : Nat) (most : Option Nat) (greed : Greed)
  | capture (n : Nat) (p : Pattern)
  | reference (n : Nat) (ignoreCase : Bool)
  /-- One of two patterns, as a capture has been made or not. -/
  | conditional (n : Nat) (yes no : Pattern)
  | ahead (positive : Bool) (p : Pattern)
  /-- What stands before a place, in a fixed number of characters. -/
  | behind (positive : Bool) (width : Nat) (p : Pattern)
  /-- The first way to match and no other. -/
  | atomic (p : Pattern)
  deriving Repr, Inhabited

namespace CharKind

def holds (ascii : Bool) (k : CharKind) (c : Char) : Bool :=
  (!ascii || c.toNat < 128) && match k with
    | .digit => Text.isDigit c
    | .space =>
      if ascii then c = ' ' || ('\t' ≤ c && c ≤ '\r') else Text.isBlank c
    | .word => Text.isWord c

end CharKind

namespace CharSet

def hasMember (ascii : Bool) (c : Char) : Member → Bool
  | .range low high => low ≤ c.toNat && c.toNat ≤ high
  | .kind k negated => k.holds ascii c != negated

/-- A character with the other case of it, if case is ignored. -/
def variants (ignoreCase : Bool) (c : Char) : List Char :=
  if ignoreCase then [c, c.toLower, c.toUpper] else [c]

def contains (set : CharSet) (c : Char) : Bool :=
  ((variants set.ignoreCase c).any fun v => set.members.any (hasMember set.ascii v)) != set.negated

end CharSet

end Conduit
