import Conduit.Pattern.Basic

/-!
# Searching for a pattern

A pattern is matched at a place in a text by trying its ways in order and
going on with what comes after it; if that fails, the next way is tried.
A round of a repetition that takes nothing is the last one.
-/

namespace Conduit

namespace Pattern

/-- A place in a text, with the captures made on the way to it. -/
structure Spot where
  /-- What stands before it, backwards. -/
  before : List Char
  after : List Char
  captures : List (Nat × List Char) := []

abbrev Continuation := Spot → Option Spot

namespace Spot

def captured? (n : Nat) (s : Spot) : Option (List Char) := s.captures.lookup n

def advance? (s : Spot) : Option (Char × Spot) :=
  match s.after with
  | [] => none
  | c :: rest => some (c, { s with before := c :: s.before, after := rest })

/-- The place a number of characters earlier. -/
def back? : Nat → Spot → Option Spot
  | 0, s => some s
  | n + 1, s =>
    match s.before with
    | [] => none
    | c :: rest => back? n { s with before := rest, after := c :: s.after }

/-- The text between two places, the later one being `s`. -/
def since (start s : Spot) : List Char := start.after.take (start.after.length - s.after.length)

/-- The place after the given characters, if they stand here. -/
def skip? (ignoreCase : Bool) : List Char → Spot → Option Spot
  | [], s => some s
  | c :: cs, s =>
    match s.advance? with
    | none => none
    | some (d, next) =>
      if c = d || (ignoreCase && c.toLower = d.toLower) then skip? ignoreCase cs next else none

def isWordEdge (ascii : Bool) (s : Spot) : Bool :=
  let isWord (cs : List Char) : Bool := (cs.head?.map (CharKind.word.holds ascii)).getD false
  isWord s.before != isWord s.after

end Spot

/-- Whether an assertion holds at a place. No assertion about words holds
in an empty text. -/
def anchorHolds (s : Spot) : Anchor → Bool
  | .textStart => s.before.isEmpty
  | .lineStart => s.before.isEmpty || s.before.head? = some '\n'
  | .textEnd => s.after.isEmpty
  | .lastLineEnd => s.after.isEmpty || s.after = ['\n']
  | .lineEnd => s.after.isEmpty || s.after.head? = some '\n'
  | .boundary negated ascii =>
    !(s.before.isEmpty && s.after.isEmpty) && s.isWordEdge ascii != negated

/-- Rounds of `body`, at least `least` and at most `most` more of them, and
then `k`. The last round started with `last` characters left; a round that
starts with as many is not tried. The fuel bounds the rounds. -/
def rounds (body : Spot → Continuation → Option Spot) (lazy : Bool) :
    Nat → Nat → Option Nat → Option Nat → Spot → Continuation → Option Spot
  | 0, _, _, _, s, k => k s
  | fuel + 1, least, most, last, s, k =>
    let again (_ : Unit) := body s fun t =>
      rounds body lazy fuel (least - 1) (most.map (· - 1)) (some s.after.length) t k
    if 0 < least then again ()
    else if most = some 0 || last = some s.after.length then k s
    else if lazy then match k s with
      | some t => some t
      | none => again ()
    else match again () with
      | some t => some t
      | none => k s

/-- Enough rounds for any text after a place. -/
def roundFuel (least : Nat) (s : Spot) : Nat := least + s.after.length + 2

mutual

/-- Matches a pattern at a place and goes on with `k`. -/
def go : Pattern → Spot → Continuation → Option Spot
  | .one set, s, k =>
    match s.advance? with
    | some (c, next) => if set.contains c then k next else none
    | none => none
  | .anchor a, s, k => if anchorHolds s a then k s else none
  | .sequence ps, s, k => goSequence ps s k
  | .choice ps, s, k => goChoice ps s k
  | .repeated p least most greed, s, k =>
    match greed with
    | .greedy => rounds (go p) false (roundFuel least s) least most none s k
    | .lazy => rounds (go p) true (roundFuel least s) least most none s k
    | .possessive => (rounds (go p) false (roundFuel least s) least most none s some).bind k
  | .capture n p, s, k =>
    go p s fun t => k { t with captures := (n, Spot.since s t) :: t.captures }
  | .reference n ignoreCase, s, k =>
    ((s.captured? n).bind fun cs => Spot.skip? ignoreCase cs s).bind k
  | .conditional n yes no, s, k => if (s.captured? n).isSome then go yes s k else go no s k
  | .ahead positive p, s, k =>
    match go p s some with
    | some t => if positive then k { s with captures := t.captures } else none
    | none => if positive then none else k s
  | .behind positive width p, s, k =>
    match (s.back? width).bind fun start => go p start some with
    | some t => if positive then k { s with captures := t.captures } else none
    | none => if positive then none else k s
  | .atomic p, s, k => (go p s some).bind k

def goSequence : List Pattern → Spot → Continuation → Option Spot
  | [], s, k => k s
  | p :: rest, s, k => go p s fun t => goSequence rest t k

def goChoice : List Pattern → Spot → Continuation → Option Spot
  | [], _, _ => none
  | p :: rest, s, k =>
    match go p s k with
    | some t => some t
    | none => goChoice rest s k

end

/-- Whether the pattern matches at some place, from `before` on. -/
def searchFrom (p : Pattern) (before : List Char) : List Char → Bool
  | [] => (go p ⟨before, [], []⟩ some).isSome
  | c :: rest =>
    (go p ⟨before, c :: rest, []⟩ some).isSome || searchFrom p (c :: before) rest

def search (p : Pattern) (text : String) : Bool := searchFrom p [] text.toList

end Pattern

end Conduit
