import Conduit.Path.Printer
import Conduit.Path.Reader
import Conduit.Query.Filter
import Conduit.Query.Segment
import Conduit.Query.Token

/-!
# Reading a query

A query starts with `$`, a name or a bracket and goes on with `.name`,
`..name`, `.*` and brackets: an index, a quoted name, a slice, a list of
these, `*`, or a filter `?(…)`. Each rule of the grammar is a function
from the tokens left to what it read and the tokens left after it, with
the proof that these are fewer; that is what the recursion ends by.
-/

namespace Conduit

namespace Query

/-- What a rule read, and the shorter list of tokens after it. -/
structure Parsed (α : Type) (before : List Token) where
  value : α
  rest : List Token
  shorter : rest.length < before.length

namespace Parsed

variable {α β : Type} {before : List Token}

def map (f : α → β) (p : Parsed α before) : Parsed β before := ⟨f p.value, p.rest, p.shorter⟩

/-- The same rule, as part of one that began earlier. -/
def from_ (p : Parsed α before) {earlier : List Token} (h : before.length ≤ earlier.length) :
    Parsed α earlier :=
  ⟨p.value, p.rest, Nat.lt_of_lt_of_le p.shorter h⟩

end Parsed

abbrev Rule (α : Type) := (toks : List Token) → Except Error (Parsed α toks)

/-- The error that something else was needed where the tokens go on. -/
def fail {α : Type} (source message : String) (toks : List Token) : Except Error α :=
  match toks with
  | [] => .error (.unexpected message source source.length "end of input")
  | t :: _ => .error (.unexpected message source t.offset t.lexeme.display)

def expect (source : String) (m : Mark) (what : String) : Rule Unit := fun toks =>
  match toks with
  | ⟨.mark n, _, _⟩ :: rest =>
    if n = m then .ok ⟨(), rest, Nat.lt_succ_self _⟩ else fail source ("Expected " ++ what) toks
  | _ => fail source ("Expected " ++ what) toks

/-! ## Names, indices and slices -/

/-- What may follow a point. -/
def member {P : Type} (source : String) : Rule (Segment P) := fun toks =>
  match toks with
  | ⟨.mark .star, _, _⟩ :: rest => .ok ⟨.wildcard, rest, Nat.lt_succ_self _⟩
  | ⟨.name s, _, _⟩ :: rest => .ok ⟨.step (.field s), rest, Nat.lt_succ_self _⟩
  | ⟨.number (.int n), _, _⟩ :: rest =>
    .ok ⟨.step (.field (toString n)), rest, Nat.lt_succ_self _⟩
  | _ => fail source "Expected a member name" toks

/-- An integer, if a number comes next. -/
def integer? (source : String) (toks : List Token) :
    Except Error (Option Int × { rest : List Token // rest.length ≤ toks.length }) :=
  match toks with
  | ⟨.number (.int n), _, _⟩ :: rest => .ok (some n, ⟨rest, Nat.le_succ _⟩)
  | ⟨.number (.double _), _, _⟩ :: rest => fail source "Expected an integer" rest
  | other => .ok (none, ⟨other, Nat.le_refl _⟩)

/-- The step of a slice after its second colon, if there is one. -/
def sliceStep (source : String) (toks : List Token) :
    Except Error (Option Int × { rest : List Token // rest.length ≤ toks.length }) :=
  match toks with
  | ⟨.mark .colon, _, _⟩ :: rest => do
    let (step, after) ← integer? source rest
    if step = some 0 then fail source "Slice step cannot be zero" after.1
    else .ok (step, ⟨after.1, Nat.le_succ_of_le after.2⟩)
  | other => .ok (none, ⟨other, Nat.le_refl _⟩)

/-- A slice from its first colon on. -/
def sliceFrom (source : String) (start : Option Int) (toks : List Token) :
    Except Error (Parsed Slice toks) :=
  match toks with
  | ⟨.mark .colon, _, _⟩ :: rest => do
    let (stop, after) ← integer? source rest
    let (step, last) ← sliceStep source after.1
    .ok ⟨⟨start, stop, step⟩, last.1,
      Nat.lt_succ_of_le (Nat.le_trans last.2 after.2)⟩
  | _ => fail source "Expected an index, a quoted name or a slice" toks

def selector {P : Type} (source : String) : Rule (Segment P) := fun toks =>
  match toks with
  | ⟨.string s, _, _⟩ :: rest => .ok ⟨.step (.field s), rest, Nat.lt_succ_self _⟩
  | ⟨.number (.int n), _, _⟩ :: ⟨.mark .colon, o, w⟩ :: rest => do
    let p ← sliceFrom source (some n) (⟨.mark .colon, o, w⟩ :: rest)
    .ok ((p.map .slice).from_ (Nat.le_succ _))
  | ⟨.number (.int n), _, _⟩ :: rest => .ok ⟨.step (.index n), rest, Nat.lt_succ_self _⟩
  | ⟨.number (.double _), _, _⟩ :: rest => fail source "Expected an integer" rest
  | other => do .ok ((← sliceFrom source none other).map .slice)

/-- The selectors after the first, each after a comma. -/
def moreSelectors {P : Type} (source : String) (toks : List Token) :
    Except Error (List (Segment P) × { rest : List Token // rest.length ≤ toks.length }) :=
  match toks with
  | ⟨.mark .comma, _, _⟩ :: rest => do
    let first ← selector source rest
    let (more, after) ← moreSelectors source first.rest
    .ok (first.value :: more, ⟨after.1,
      Nat.le_trans after.2 (Nat.le_succ_of_le (Nat.le_of_lt first.shorter))⟩)
  | other => .ok ([], ⟨other, Nat.le_refl _⟩)
termination_by toks.length
decreasing_by exact Nat.lt_succ_of_lt first.shorter

/-- One selector, or several as a selection. -/
def selectors {P : Type} (source : String) : Rule (Segment P) := fun toks => do
  let first ← selector source toks
  let (more, after) ← moreSelectors source first.rest
  let segment := if more.isEmpty then first.value else .selection (first.value :: more)
  .ok ⟨segment, after.1, Nat.lt_of_le_of_lt after.2 first.shorter⟩

/-! ## Paths inside filters -/

def pathBracket (source : String) : Rule Step := fun toks =>
  match toks with
  | ⟨.string s, _, _⟩ :: rest => .ok ⟨.field s, rest, Nat.lt_succ_self _⟩
  | ⟨.number (.int n), _, _⟩ :: rest => .ok ⟨.index n, rest, Nat.lt_succ_self _⟩
  | ⟨.number (.double _), _, _⟩ :: rest => fail source "Expected an integer" rest
  | _ => fail source "Expected an index or a quoted name" toks

def pathStep (source : String) (toks : List Token) :
    Except Error (Option (Parsed Step toks)) :=
  match toks with
  | ⟨.mark .point, _, _⟩ :: rest => do
    let m ← member (P := Empty) source rest
    match m.value with
    | .step s => .ok (some ⟨s, m.rest, Nat.lt_succ_of_lt m.shorter⟩)
    | _ => fail source "Wildcards are not allowed inside filters" m.rest
  | ⟨.mark .openBracket, _, _⟩ :: rest => do
    let s ← pathBracket source rest
    let close ← expect source .closeBracket "']'" s.rest
    .ok (some ⟨s.value, close.rest, Nat.lt_succ_of_lt (Nat.lt_trans close.shorter s.shorter)⟩)
  | _ => .ok none

def pathSteps (source : String) (toks : List Token) :
    Except Error (List Step × { rest : List Token // rest.length ≤ toks.length }) := do
  match ← pathStep source toks with
  | none => .ok ([], ⟨toks, Nat.le_refl _⟩)
  | some s => do
    let (more, after) ← pathSteps source s.rest
    .ok (s.value :: more, ⟨after.1, Nat.le_trans after.2 (Nat.le_of_lt s.shorter)⟩)
termination_by toks.length
decreasing_by exact s.shorter

/-- The dot path of steps inside a filter, read back from its text. -/
def filterPath (steps : List Step) : Except Error DotPath :=
  match DotPath.format steps with
  | .error l => .error (.limit l)
  | .ok text =>
    match DotPath.parse text with
    | .ok p => .ok p
    | .error e => .error (.filterPath e)

/-- The path after `@`, which stands for the candidate, or after `$`,
which must be followed by a name. -/
def relativePath (source : String) (atCandidate : Bool) (toks : List Token) :
    Except Error (DotPath × { rest : List Token // rest.length ≤ toks.length }) := do
  let (steps, after) ← pathSteps source toks
  let full := if atCandidate then .field "@" :: steps else steps
  match full with
  | .field _ :: _ => do
    let p ← filterPath full
    .ok (p, after)
  | _ => fail source "'$' inside a filter must be followed by a name" after.1

/-! ## Filter conditions -/

def keyword? : String → Option Value
  | "true" => some (.bool true)
  | "false" => some (.bool false)
  | "null" => some .null
  | _ => none

def comparison? : Mark → Option Comparison
  | .eq => some .eq
  | .ne => some .ne
  | .lt => some .lt
  | .le => some .lte
  | .gt => some .gt
  | .ge => some .gte
  | _ => none

/-- An operand without parentheses, and whether it is a path. -/
def plainOperand (source : String) : Rule (Filter × Bool) := fun toks =>
  match toks with
  | ⟨.number n, _, _⟩ :: rest => .ok ⟨(.literal (.number n), false), rest, Nat.lt_succ_self _⟩
  | ⟨.string s, _, _⟩ :: rest => .ok ⟨(.literal (.str s), false), rest, Nat.lt_succ_self _⟩
  | ⟨.name s, _, _⟩ :: rest =>
    match keyword? s with
    | some v => .ok ⟨(.literal v, false), rest, Nat.lt_succ_self _⟩
    | none => fail source "Expected a value or a path" toks
  | ⟨.mark .current, _, _⟩ :: rest => do
    let (p, after) ← relativePath source true rest
    .ok ⟨(.path p, true), after.1, Nat.lt_succ_of_le after.2⟩
  | ⟨.mark .root, _, _⟩ :: rest => do
    let (p, after) ← relativePath source false rest
    .ok ⟨(.path p, true), after.1, Nat.lt_succ_of_le after.2⟩
  | _ => fail source "Expected a value or a path" toks

/-- A condition on its own: a path asks for presence. -/
def standalone : Filter → Filter
  | .path p => .present p
  | f => f

/-- Several conditions under one connective; one needs none. -/
def join (connective : List Filter → Filter) (first : Filter) (more : List Filter) : Filter :=
  if more.isEmpty then first else connective (first :: more)

mutual

/-- Conditions between `||`. -/
def orFilter (source : String) (toks : List Token) : Except Error (Parsed Filter toks) := do
  let first ← andFilter source toks
  let (more, after) ← moreOr source first.rest
  .ok ⟨join .or first.value more, after.1, Nat.lt_of_le_of_lt after.2 first.shorter⟩
termination_by (toks.length, 4)
decreasing_by
  · exact Prod.Lex.right _ (by omega)
  · exact Prod.Lex.left _ _ first.shorter

def moreOr (source : String) (toks : List Token) :
    Except Error (List Filter × { rest : List Token // rest.length ≤ toks.length }) :=
  match toks with
  | ⟨.mark .or, _, _⟩ :: rest => do
    let first ← andFilter source rest
    let (more, after) ← moreOr source first.rest
    .ok (first.value :: more, ⟨after.1,
      Nat.le_trans after.2 (Nat.le_succ_of_le (Nat.le_of_lt first.shorter))⟩)
  | other => .ok ([], ⟨other, Nat.le_refl _⟩)
termination_by (toks.length, 5)
decreasing_by
  · exact Prod.Lex.left _ _ (Nat.lt_succ_self _)
  · exact Prod.Lex.left _ _ (Nat.lt_succ_of_lt first.shorter)

/-- Conditions between `&&`. -/
def andFilter (source : String) (toks : List Token) : Except Error (Parsed Filter toks) := do
  let first ← unary source toks
  let (more, after) ← moreAnd source first.rest
  .ok ⟨join .and first.value more, after.1, Nat.lt_of_le_of_lt after.2 first.shorter⟩
termination_by (toks.length, 3)
decreasing_by
  · exact Prod.Lex.right _ (by omega)
  · exact Prod.Lex.left _ _ first.shorter

def moreAnd (source : String) (toks : List Token) :
    Except Error (List Filter × { rest : List Token // rest.length ≤ toks.length }) :=
  match toks with
  | ⟨.mark .and, _, _⟩ :: rest => do
    let first ← unary source rest
    let (more, after) ← moreAnd source first.rest
    .ok (first.value :: more, ⟨after.1,
      Nat.le_trans after.2 (Nat.le_succ_of_le (Nat.le_of_lt first.shorter))⟩)
  | other => .ok ([], ⟨other, Nat.le_refl _⟩)
termination_by (toks.length, 5)
decreasing_by
  · exact Prod.Lex.left _ _ (Nat.lt_succ_self _)
  · exact Prod.Lex.left _ _ (Nat.lt_succ_of_lt first.shorter)

/-- A condition after any number of `!`. -/
def unary (source : String) (toks : List Token) : Except Error (Parsed Filter toks) :=
  match toks with
  | ⟨.mark .not, _, _⟩ :: rest => do
    let operand ← unary source rest
    .ok ((operand.map .not).from_ (Nat.le_succ _))
  | other => comparison source other
termination_by (toks.length, 2)
decreasing_by
  · exact Prod.Lex.left _ _ (Nat.lt_succ_self _)
  · exact Prod.Lex.right _ (by omega)

/-- One operand, or two with a comparison between them. -/
def comparison (source : String) (toks : List Token) : Except Error (Parsed Filter toks) := do
  let left ← operand source toks
  match h : left.rest with
  | ⟨.mark m, _, _⟩ :: rest =>
    match comparison? m with
    | some op => do
      let right ← operand source rest
      .ok ⟨.compare op left.value.1 right.value.1, right.rest, by
        have := left.shorter
        rw [h, List.length_cons] at this
        exact Nat.lt_trans right.shorter (Nat.lt_of_succ_lt this)⟩
    | none => .ok (left.map fun p => if p.2 then standalone p.1 else p.1)
  | _ => .ok (left.map fun p => if p.2 then standalone p.1 else p.1)
termination_by (toks.length, 1)
decreasing_by
  · exact Prod.Lex.right _ (by omega)
  · have := left.shorter
    rw [h, List.length_cons] at this
    exact Prod.Lex.left _ _ (Nat.lt_of_succ_lt this)

/-- An operand, and whether it is a path without parentheses. -/
def operand (source : String) (toks : List Token) :
    Except Error (Parsed (Filter × Bool) toks) :=
  match toks with
  | ⟨.mark .openParen, _, _⟩ :: rest => do
    let inner ← orFilter source rest
    let close ← expect source .closeParen "')'" inner.rest
    .ok ⟨(inner.value, false), close.rest,
      Nat.lt_succ_of_lt (Nat.lt_trans close.shorter inner.shorter)⟩
  | other => plainOperand source other
termination_by (toks.length, 0)
decreasing_by exact Prod.Lex.left _ _ (Nat.lt_succ_self _)

end

/-! ## Segments -/

/-- What stands between the marks of a bracket. -/
def contents (source : String) : Rule (Segment Filter) := fun toks =>
  match toks with
  | ⟨.mark .star, _, _⟩ :: rest => .ok ⟨.wildcard, rest, Nat.lt_succ_self _⟩
  | ⟨.mark .question, _, _⟩ :: rest => do
    let opening ← expect source .openParen "'(' after '?'" rest
    let condition ← orFilter source opening.rest
    let close ← expect source .closeParen "')'" condition.rest
    .ok ⟨.filter condition.value, close.rest, Nat.lt_succ_of_lt
      (Nat.lt_trans close.shorter (Nat.lt_trans condition.shorter opening.shorter))⟩
  | other => selectors source other

def bracket (source : String) : Rule (Segment Filter) := fun toks => do
  let contents ← contents source toks
  let close ← expect source .closeBracket "']'" contents.rest
  .ok ⟨contents.value, close.rest, Nat.lt_trans close.shorter contents.shorter⟩

def segment (source : String) : Rule (Segment Filter) := fun toks =>
  match toks with
  | ⟨.mark .point, _, _⟩ :: rest => do .ok ((← member source rest).from_ (Nat.le_succ _))
  | ⟨.mark .descend, _, _⟩ :: ⟨.mark .openBracket, _, _⟩ :: rest => do
    .ok (((← bracket source rest).map .descent).from_ (Nat.le_succ_of_le (Nat.le_succ _)))
  | ⟨.mark .descend, _, _⟩ :: rest => do
    .ok (((← member source rest).map .descent).from_ (Nat.le_succ _))
  | ⟨.mark .openBracket, _, _⟩ :: rest => do .ok ((← bracket source rest).from_ (Nat.le_succ _))
  | _ => fail source "Expected '.', '..' or '['" toks

def segments (source : String) (toks : List Token) : Except Error (List (Segment Filter)) :=
  match toks with
  | [] => .ok []
  | t :: rest => do
    let first ← segment source (t :: rest)
    let more ← segments source first.rest
    .ok (first.value :: more)
termination_by toks.length
decreasing_by exact first.shorter

/-- The segments of a query after its start. -/
def start (source : String) (toks : List Token) : Except Error (List (Segment Filter)) :=
  match toks with
  | ⟨.mark .root, _, _⟩ :: rest => segments source rest
  | ⟨.name s, _, _⟩ :: rest => do .ok (.step (.field s) :: (← segments source rest))
  | ⟨.mark .openBracket, _, _⟩ :: _ => segments source toks
  | _ => fail source "Expected '$' or a name" toks

def parse (source : String) : Except Error (List (Segment Filter)) :=
  if source.toList.all Text.isBlank then .error .empty
  else do start source (← scan source)

end Query

end Conduit
