import Conduit.Text.Numeral
import Conduit.Template.Placeholder

/-!
# Tags

Between `{%` and `%}` a template may hold a tag of the template language:
conditions, loops, blocks, macros. None but those that print is ever
carried out, yet a template whose tags are well formed is refused for other
reasons than one whose tags are not, so this module recognizes their
grammar. A rule takes the tokens left and gives back those after what it
recognized.

The language is that of Jinja2, a library on its own, for whose scanner and
parser of tags this module stands. What a tag prints is not told here.
-/

namespace Conduit

namespace Template

inductive Word where
  | name (s : String)
  | string
  | integer
  /-- An integer of this many digits, too many to be read. -/
  | longInteger (digits : Nat)
  | float
  | sign (s : String)
  deriving DecidableEq, Repr

namespace Word

/-! ## Cutting a tag into words -/

/-- The leading characters that satisfy a test. -/
def run (p : Char → Bool) : List Mark → List Char
  | .char c :: rest => if p c then c :: run p rest else []
  | _ => []

/-- The length of digits with single underscores between them, for digits
of the given class. -/
def digitRun (p : Char → Bool) : List Char → Nat
  | c :: '_' :: d :: rest =>
    if p c then if p d then 2 + digitRun p (d :: rest) else 1 else 0
  | c :: rest => if p c then 1 + digitRun p rest else 0
  | [] => 0

/-- The length of an exponent, from its letter on. -/
def exponentRun : List Char → Nat
  | e :: rest =>
    if e = 'e' ∨ e = 'E' then
      let signed := match rest with
        | '+' :: _ => 1
        | '-' :: _ => 1
        | _ => 0
      let n := digitRun Text.isDigit (rest.drop signed)
      if n = 0 then 0 else 1 + signed + n
    else 0
  | [] => 0

/-- The length of a number with a fraction or an exponent. -/
def floatRun (cs : List Char) : Nat :=
  let whole := digitRun Text.isDigit cs
  if whole = 0 then 0
  else
    let rest := cs.drop whole
    let fraction := match rest with
      | '.' :: more =>
        let n := digitRun Text.isDigit more
        if n = 0 then 0 else n + 1
      | _ => 0
    let power := exponentRun (rest.drop fraction)
    if fraction = 0 ∧ power = 0 then 0 else whole + fraction + power

/-- The length of digits that may each follow an underscore. -/
def spacedRun (p : Char → Bool) : List Char → Nat
  | '_' :: d :: rest => if p d then 2 + spacedRun p rest else 0
  | c :: rest => if p c then 1 + spacedRun p rest else 0
  | [] => 0

/-- The length of an integer in base two, eight, sixteen or ten. -/
def integerRun : List Char → Nat
  | '0' :: b :: rest =>
    let digits := if b = 'b' ∨ b = 'B' then spacedRun (fun c => c = '0' || c = '1') rest
      else if b = 'o' ∨ b = 'O' then spacedRun (fun c => '0' ≤ c && c ≤ '7') rest
      else if b = 'x' ∨ b = 'X' then
        spacedRun (fun c => (Text.hexValue? c).isSome || Text.isDigit c) rest
      else 0
    if digits = 0 then 1 + spacedRun (· = '0') (b :: rest) else 2 + digits
  | c :: rest =>
    if '1' ≤ c ∧ c ≤ '9' then 1 + spacedRun Text.isDigit rest else if c = '0' then 1 else 0
  | [] => 0

/-- The integer that these characters are. Only in base ten is there a limit to
its digits. -/
def ofInteger (cs : List Char) : Word :=
  let digits := (cs.filter (· ≠ '_')).length
  if cs.all (fun c => Text.isDigit c || c = '_') ∧ Limit.numeralDigits < digits then
    .longInteger digits
  else .integer

def longDigits? : Word → Option Nat
  | .longInteger digits => some digits
  | _ => none

/-- Whether an escape letter is followed by the hexadecimal digits that it
needs, and these are the code of a character. -/
def hexFollows (n : Nat) (rest : List Mark) : Bool :=
  let digits := (run (fun c => (Text.hexValue? c).isSome) rest).take n
  let code := digits.foldl (fun code c => 16 * code + (Text.hexValue? c).getD 0) 0
  digits.length = n && code ≤ 0x10ffff

def afterString? (q : Char) : List Mark → Option (List Mark)
  | [] => none
  | .char '\\' :: .char c :: rest =>
    if (c = 'x' ∧ ¬ hexFollows 2 rest) ∨ (c = 'u' ∧ ¬ hexFollows 4 rest) ∨
        (c = 'U' ∧ ¬ hexFollows 8 rest) ∨ c = 'N' then none
    else afterString? q rest
  | .char '\\' :: .slot _ :: rest => afterString? q rest
  | m :: rest => if m = .char q then some rest else afterString? q rest

/-- The signs of the language, longer ones first. -/
def signs : List String :=
  ["//", "**", "==", "!=", ">=", "<=", "+", "-", "/", "*", "%", "~", "[", "]", "(", ")", "\x7b",
   "\x7d", ">", "<", "=", ".", ":", "|", ",", ";"]

/-- The bracket that closes an opening one. -/
def closer? : String → Option String
  | "\x7b" => some "\x7d"
  | "(" => some ")"
  | "[" => some "]"
  | _ => none

/-- The open brackets after a sign; none if it closes the wrong one. -/
def rebalance? (s : String) (opened : List String) : Option (List String) :=
  match closer? s with
  | some c => some (c :: opened)
  | none =>
    if s = "\x7d" ∨ s = ")" ∨ s = "]" then
      match opened with
      | c :: rest => if c = s then some rest else none
      | [] => none
    else some opened

/-- The marks after the end of a tag, blanks included if it asks to strip
them. -/
def afterEnd? : List Mark → Option (List Mark)
  | .char '+' :: .char '%' :: .char '\x7d' :: rest => some rest
  | .char '-' :: .char '%' :: .char '\x7d' :: rest =>
    some (rest.drop (run Text.isBlank rest).length)
  | .char '%' :: .char '\x7d' :: rest => some rest
  | _ => none

/-- The words that stand for a slot inside a tag. -/
def ofSlot : List Word :=
  [.sign "\x7b", .sign "\x7b", .name "_v", .sign "[", .integer, .sign "]", .sign "\x7d",
   .sign "\x7d"]

def isDigitStart (cs : List Char) : Bool := (cs.head?.map Text.isDigit).getD false

/-- The words of a tag up to its end, and the marks after it. The fuel is
the number of marks; `afterPoint` tells whether a point came last. -/
def scan : Nat → Bool → List String → List Mark → Option (List Word × List Mark)
  | 0, _, _, _ => none
  | fuel + 1, afterPoint, opened, marks =>
    match if opened.isEmpty then afterEnd? marks else none with
    | some rest => some ([], rest)
    | none =>
      match marks with
      | [] => none
      | .slot _ :: rest => (scan fuel false opened rest).map fun p => (ofSlot ++ p.1, p.2)
      | .char c :: rest =>
        if Text.isBlank c then scan fuel false opened rest
        else
          let cs := run (fun _ => true) marks
          let float := if afterPoint then 0 else floatRun cs
          let integer := integerRun cs
          let name := cs.takeWhile Text.isWord
          if float ≠ 0 then
            (scan fuel false opened (marks.drop float)).map fun p => (.float :: p.1, p.2)
          else if integer ≠ 0 then
            (scan fuel false opened (marks.drop integer)).map fun p =>
              (ofInteger (cs.take integer) :: p.1, p.2)
          else if ¬ name.isEmpty then
            if isDigitStart name then none
            else (scan fuel false opened (marks.drop name.length)).map fun p =>
              (.name (String.ofList name) :: p.1, p.2)
          else if c = '\'' ∨ c = '"' then
            (afterString? c rest).bind fun after =>
              (scan fuel false opened after).map fun p => (.string :: p.1, p.2)
          else do
            let s ← signs.find? fun s => s.toList.isPrefixOf cs
            let opened ← rebalance? s opened
            let (words, after) ← scan fuel (s = ".") opened (marks.drop s.length)
            pure (.sign s :: words, after)

end Word

/-! ## Expressions

What kind of expression was recognized matters in two places: only names
and tuples of names can be assigned to, and only a call can be called
with a block. -/

inductive Shape where
  | target | call | other
  deriving DecidableEq, Repr

namespace Tag

def isConstant (s : String) : Bool :=
  ["true", "false", "none", "True", "False", "None"].contains s

def isArithmetic (s : String) : Bool :=
  ["+", "-", "~", "*", "/", "//", "%", "**", "==", "!=", "<", "<=", ">", ">="].contains s

def skip (w : Word) : List Word → Option (List Word)
  | x :: rest => if x = w then some rest else none
  | [] => none

/-- Dotted names after a first one. -/
def dotted : List Word → Option (List Word)
  | .sign "." :: .name _ :: rest => dotted rest
  | .sign "." :: _ => none
  | ws => some ws

def dottedName : List Word → Option (List Word)
  | .name _ :: rest => dotted rest
  | _ => none

/-- Whether a list of elements ends here. -/
def endsList (closing : Word) (ws : List Word) : Bool := ws.head? = some closing

def endsTuple (stop : List Word) (ws : List Word) : Bool :=
  match ws with
  | [] => true
  | w :: _ => w = .sign ")" || stop.contains w

/-- A word that begins the argument of a test written without parentheses. -/
def beginsArgument : Word → Bool
  | .name s => !(["else", "or", "and"].contains s)
  | .string | .integer | .longInteger _ | .float => true
  | .sign s => ["(", "[", "\x7b"].contains s

mutual

/-- An expression; `conditional` allows the form with `if`. -/
def expression : Nat → Bool → List Word → Option (Shape × List Word)
  | 0, _, _ => none
  | fuel + 1, conditional, ws => do
    let (shape, rest) ← negation fuel ws
    match conditional, rest with
    | true, .name "if" :: _ => do
      let rest ← conditions fuel rest
      pure (.other, rest)
    | _, _ => pure (shape, rest)

/-- The conditions after an expression, each with or without `else`. -/
def conditions : Nat → List Word → Option (List Word)
  | 0, _ => none
  | fuel + 1, ws =>
    match ws with
    | .name "if" :: rest => do
      let (_, rest) ← negation fuel rest
      match rest with
      | .name "else" :: more => do
        let (_, rest) ← expression fuel true more
        conditions fuel rest
      | _ => conditions fuel rest
    | _ => some ws

/-- An operand after any number of `not`, and all that operators join to
it. -/
def negation : Nat → List Word → Option (Shape × List Word)
  | 0, _ => none
  | fuel + 1, ws =>
    match ws with
    | .name "not" :: rest => do
      let (_, rest) ← negation fuel rest
      pure (.other, rest)
    | _ => do
      let (shape, rest) ← operand fuel ws
      operators fuel shape rest

def operators : Nat → Shape → List Word → Option (Shape × List Word)
  | 0, _, _ => none
  | fuel + 1, shape, ws =>
    match ws with
    | .name "or" :: rest => do
      let (_, rest) ← negation fuel rest
      pure (.other, rest)
    | .name "and" :: rest => do
      let (_, rest) ← negation fuel rest
      pure (.other, rest)
    | .name "in" :: rest => do
      let (_, rest) ← operand fuel rest
      operators fuel .other rest
    | .name "not" :: .name "in" :: rest => do
      let (_, rest) ← operand fuel rest
      operators fuel .other rest
    | .sign s :: rest =>
      if isArithmetic s then do
        let (_, rest) ← operand fuel rest
        operators fuel .other rest
      else some (shape, ws)
    | _ => some (shape, ws)

/-- A primary expression after signs, with calls, members, filters and
tests behind it. -/
def operand : Nat → List Word → Option (Shape × List Word)
  | 0, _ => none
  | fuel + 1, ws =>
    match ws with
    | .sign "-" :: rest => do
      let (_, rest) ← operand fuel rest
      pure (.other, rest)
    | .sign "+" :: rest => do
      let (_, rest) ← operand fuel rest
      pure (.other, rest)
    | _ => do
      let (shape, rest) ← primary fuel false ws
      let (shape, rest) ← members fuel shape rest
      filters fuel shape rest

/-- A name, constant, tuple, list or dictionary; `owned` allows a name
with an attribute as a target. -/
def primary : Nat → Bool → List Word → Option (Shape × List Word)
  | 0, _, _ => none
  | fuel + 1, owned, ws =>
    match ws with
    | .name s :: rest =>
      if isConstant s then some (.other, rest)
      else
        match owned, rest with
        | true, .sign "." :: .name _ :: more => some (.target, more)
        | true, .sign "." :: _ => none
        | _, _ => some (.target, rest)
    | .string :: rest => some (.other, rest.dropWhile (· = .string))
    | .integer :: rest => some (.other, rest)
    | .float :: rest => some (.other, rest)
    | .sign "(" :: rest => do
      let (shape, rest) ← tuple fuel false true [] true false rest
      let rest ← skip (.sign ")") rest
      pure (shape, rest)
    | .sign "[" :: rest => do
      let rest ← elements fuel (.sign "]") true rest
      pure (.other, rest)
    | .sign "\x7b" :: rest => do
      let rest ← pairs fuel true rest
      pure (.other, rest)
    | _ => none

/-- Expressions between commas: one alone, or a tuple. `simple` allows
primaries only, `empty` no element at all. -/
def tuple : Nat → Bool → Bool → List Word → Bool → Bool → List Word → Option (Shape × List Word)
  | 0, _, _, _, _, _, _ => none
  | fuel + 1, simple, conditional, stop, empty, owned, ws =>
    if endsTuple stop ws then if empty then some (.target, ws) else none
    else do
      let (shape, rest) ← if simple then primary fuel owned ws
        else expression fuel conditional ws
      match rest with
      | .sign "," :: more => do
        let (shapes, rest) ← tuple fuel simple conditional stop true owned more
        pure (if shape = .target ∧ shapes = .target then .target else .other, rest)
      | _ => pure (shape, rest)

/-- The elements of a list up to the closing word. -/
def elements : Nat → Word → Bool → List Word → Option (List Word)
  | 0, _, _, _ => none
  | fuel + 1, closing, first, ws =>
    if endsList closing ws then some ws.tail
    else do
      let ws ← if first then some ws else skip (.sign ",") ws
      if endsList closing ws then pure ws.tail
      else do
        let (_, rest) ← expression fuel true ws
        elements fuel closing false rest

/-- The pairs of a dictionary. -/
def pairs : Nat → Bool → List Word → Option (List Word)
  | 0, _, _ => none
  | fuel + 1, first, ws =>
    if endsList (.sign "\x7d") ws then some ws.tail
    else do
      let ws ← if first then some ws else skip (.sign ",") ws
      if endsList (.sign "\x7d") ws then pure ws.tail
      else do
        let (_, rest) ← expression fuel true ws
        let rest ← skip (.sign ":") rest
        let (_, rest) ← expression fuel true rest
        pairs fuel false rest

/-- Attributes, subscripts and calls behind an expression. -/
def members : Nat → Shape → List Word → Option (Shape × List Word)
  | 0, _, _ => none
  | fuel + 1, shape, ws =>
    match ws with
    | .sign "." :: .name _ :: rest => members fuel .other rest
    | .sign "." :: .integer :: rest => members fuel .other rest
    | .sign "." :: _ => none
    | .sign "[" :: rest => do
      let rest ← subscripts fuel true rest
      members fuel .other rest
    | .sign "(" :: rest => do
      let rest ← arguments fuel true false false false rest
      members fuel .call rest
    | _ => some (shape, ws)

def subscripts : Nat → Bool → List Word → Option (List Word)
  | 0, _, _ => none
  | fuel + 1, first, ws =>
    if endsList (.sign "]") ws then some ws.tail
    else do
      let ws ← if first then some ws else skip (.sign ",") ws
      let rest ← subscript fuel ws
      subscripts fuel false rest

def subscript : Nat → List Word → Option (List Word)
  | 0, _ => none
  | fuel + 1, ws =>
    match ws with
    | .sign ":" :: rest => sliceParts fuel 2 rest
    | _ => do
      let (_, rest) ← expression fuel true ws
      match rest with
      | .sign ":" :: more => sliceParts fuel 2 more
      | _ => pure rest

/-- The bounds of a slice after its first colon, at most `n` of them. -/
def sliceParts : Nat → Nat → List Word → Option (List Word)
  | 0, _, _ => none
  | _, 0, ws => some ws
  | fuel + 1, n + 1, ws => do
    let rest ← match ws with
      | .sign ":" :: _ => some ws
      | .sign "]" :: _ => some ws
      | .sign "," :: _ => some ws
      | _ => (expression fuel true ws).map Prod.snd
    match n, rest with
    | m + 1, .sign ":" :: more => sliceParts fuel (m + 1) more
    | _, _ => pure rest

/-- The arguments of a call after its opening parenthesis. The flags tell
whether named, spread and doubly spread arguments came before. -/
def arguments : Nat → Bool → Bool → Bool → Bool → List Word → Option (List Word)
  | 0, _, _, _, _, _ => none
  | fuel + 1, first, named, spread, spreadPairs, ws =>
    if endsList (.sign ")") ws then some ws.tail
    else do
      let ws ← if first then some ws else skip (.sign ",") ws
      if endsList (.sign ")") ws then pure ws.tail
      else
        match ws with
        | .sign "*" :: rest =>
          if spread || spreadPairs then none
          else do
            let (_, rest) ← expression fuel true rest
            arguments fuel false named true spreadPairs rest
        | .sign "**" :: rest =>
          if spreadPairs then none
          else do
            let (_, rest) ← expression fuel true rest
            arguments fuel false named spread true rest
        | .name _ :: .sign "=" :: rest =>
          if spreadPairs then none
          else do
            let (_, rest) ← expression fuel true rest
            arguments fuel false true spread spreadPairs rest
        | _ =>
          if spread || spreadPairs || named then none
          else do
            let (_, rest) ← expression fuel true ws
            arguments fuel false named spread spreadPairs rest

def filters : Nat → Shape → List Word → Option (Shape × List Word)
  | 0, _, _ => none
  | fuel + 1, shape, ws =>
    match ws with
    | .sign "|" :: rest => do
      let rest ← filterName fuel rest
      filters fuel .other rest
    | .name "is" :: rest => do
      let rest ← test fuel rest
      filters fuel .other rest
    | .sign "(" :: rest => do
      let rest ← arguments fuel true false false false rest
      filters fuel .call rest
    | _ => some (shape, ws)

def filterName : Nat → List Word → Option (List Word)
  | 0, _ => none
  | fuel + 1, ws => do
    let rest ← dottedName ws
    match rest with
    | .sign "(" :: more => arguments fuel true false false false more
    | _ => pure rest

def test : Nat → List Word → Option (List Word)
  | 0, _ => none
  | fuel + 1, ws => do
    let rest ← dottedName (match ws with
      | .name "not" :: rest => rest
      | _ => ws)
    match rest with
    | .sign "(" :: more => arguments fuel true false false false more
    | .name "is" :: _ => none
    | w :: _ =>
      if beginsArgument w then do
        let (shape, rest) ← primary fuel false rest
        let (_, rest) ← members fuel shape rest
        pure rest
      else pure rest
    | [] => pure rest

end

/-- An expression with fuel for all its words. -/
def expr (ws : List Word) : Option (Shape × List Word) :=
  expression (8 * ws.length + 16) true ws

/-- Expressions between commas, with or without the conditional form. -/
def exprs (conditional : Bool) (stop : List Word) (ws : List Word) : Option (Shape × List Word) :=
  tuple (8 * ws.length + 16) false conditional stop false false ws

def target (owned : Bool) (stop : List Word) (ws : List Word) : Option (List Word) := do
  let (shape, rest) ← tuple (8 * ws.length + 16) true true stop false owned ws
  if shape = .target then pure rest else none

def nameTarget : List Word → Option (List Word)
  | .name s :: rest => if isConstant s then none else some rest
  | _ => none

def pipes : Nat → List Word → Option (List Word)
  | 0, _ => none
  | fuel + 1, .sign "|" :: rest => do
    let rest ← filterName (8 * rest.length + 16) rest
    pipes fuel rest
  | _, ws => some ws

/-- The parameters of a macro after the opening parenthesis; one without a
default cannot follow one with. -/
def parameters : Nat → Bool → Bool → List Word → Option (List Word)
  | 0, _, _, _ => none
  | fuel + 1, first, defaults, ws =>
    match ws with
    | .sign ")" :: rest => some rest
    | _ => do
      let ws ← if first then some ws else skip (.sign ",") ws
      let rest ← nameTarget ws
      match rest with
      | .sign "=" :: more => do
        let (_, rest) ← expr more
        parameters fuel false true rest
      | _ => if defaults then none else parameters fuel false false rest

def signature (ws : List Word) : Option (List Word) := do
  parameters (ws.length + 1) true false (← skip (.sign "(") ws)

/-- The optional words about the context of an import. -/
def importContext : List Word → List Word
  | .name s :: .name "context" :: rest =>
    if s = "with" ∨ s = "without" then rest else .name s :: .name "context" :: rest
  | ws => ws

def isImportContext : List Word → Bool
  | .name s :: .name "context" :: _ => s = "with" || s = "without"
  | _ => false

/-- The names of an import from a template. -/
def importNames : Nat → Bool → List Word → Option (List Word)
  | 0, _, _ => none
  | fuel + 1, first, ws => do
    let ws ← if first then some ws else skip (.sign ",") ws
    match ws with
    | .name s :: rest =>
      if isImportContext ws then pure (importContext ws)
      else if isConstant s || s.startsWith "_" then none
      else do
        let rest ← match rest with
          | .name "as" :: more => nameTarget more
          | _ => some rest
        if isImportContext rest then pure (importContext rest)
        else
          match rest with
          | .sign "," :: _ => importNames fuel false rest
          | _ => pure rest
    | _ => none

def bindings : Nat → Bool → List Word → Option (List Word)
  | 0, _, _ => none
  | _, _, [] => some []
  | fuel + 1, first, ws => do
    let ws ← if first then some ws else skip (.sign ",") ws
    let rest ← target false [] ws
    let rest ← skip (.sign "=") rest
    let (_, rest) ← expr rest
    bindings fuel false rest

def printed : Nat → Bool → List Word → Option (List Word)
  | 0, _, _ => none
  | _, _, [] => some []
  | fuel + 1, first, ws => do
    let ws ← if first then some ws else skip (.sign ",") ws
    let (_, rest) ← expr ws
    printed fuel false rest

/-! ## Tags -/

/-- The words after the head of a tag that has a body: nothing but an
optional colon. -/
def opensBody : List Word → Bool
  | [] => true
  | [.sign ":"] => true
  | _ => false

/-- What the head of a tag tells about what follows it. -/
inductive Head where
  /-- The tag stands alone. -/
  | alone
  /-- A body follows, up to a tag of one of these names. -/
  | body (ends : List String)
  deriving DecidableEq

def headBody (ends : List String) (rest : List Word) : Option Head :=
  if opensBody rest then some (.body ends) else none

def headAlone (rest : List Word) : Option Head := if rest.isEmpty then some .alone else none

/-- The head of a tag of the given name. -/
def head (name : String) (ws : List Word) : Option Head :=
  match name with
  | "for" => do
    let rest ← target false [.name "in"] ws
    let rest ← skip (.name "in") rest
    let (_, rest) ← exprs false [.name "recursive"] rest
    let rest ← match rest with
      | .name "if" :: more => (expr more).map Prod.snd
      | _ => some rest
    let rest := match rest with
      | .name "recursive" :: more => more
      | _ => rest
    headBody ["endfor", "else"] rest
  | "if" => do headBody ["elif", "else", "endif"] (← exprs false [] ws).2
  | "elif" => do headBody ["elif", "else", "endif"] (← exprs false [] ws).2
  | "with" => do headBody ["endwith"] (← bindings (ws.length + 1) true ws)
  | "autoescape" => do headBody ["endautoescape"] (← expr ws).2
  | "block" =>
    match ws with
    | .name _ :: rest =>
      let rest := match rest with
        | .name "scoped" :: more => more
        | _ => rest
      let rest := match rest with
        | .name "required" :: more => more
        | _ => rest
      headBody ["endblock"] rest
    | _ => none
  | "extends" => do headAlone (← expr ws).2
  | "include" => do
    let (_, rest) ← expr ws
    let rest := match rest with
      | .name "ignore" :: .name "missing" :: more => more
      | _ => rest
    headAlone (importContext rest)
  | "import" => do
    let (_, rest) ← expr ws
    let rest ← skip (.name "as") rest
    headAlone (importContext (← nameTarget rest))
  | "from" => do
    let (_, rest) ← expr ws
    let rest ← skip (.name "import") rest
    headAlone (← importNames (rest.length + 1) true rest)
  | "call" => do
    let rest ← match ws with
      | .sign "(" :: _ => signature ws
      | _ => some ws
    let (shape, rest) ← expr rest
    if shape = .call then headBody ["endcall"] rest else none
  | "filter" => do
    let rest ← filterName (8 * ws.length + 16) ws
    headBody ["endfilter"] (← pipes (ws.length + 1) rest)
  | "macro" => do headBody ["endmacro"] (← signature (← nameTarget ws))
  | "print" => do headAlone (← printed (ws.length + 1) true ws)
  | "set" => do
    let rest ← target true [] ws
    match rest with
    | .sign "=" :: more => headAlone (← exprs true [] more).2
    | _ => headBody ["endset"] (← pipes (ws.length + 1) rest)
  | _ => none

/-- Whether a tag is one that prints. -/
def isPrint : List Word → Bool
  | .name "print" :: ws => (head "print" ws).isSome
  | _ => false

/-- The names of tags that only stand inside or at the end of another. -/
def isInner (name : String) : Bool := name = "elif" || name = "else" || name.startsWith "end"

/-- What may follow a tag that ended a body: another body, or the rest of
the tag around it. `opener` is the name of the tag that began it. -/
def afterBody (opener label : Option String) (name : String) (ws : List Word) : Option Head :=
  match name with
  | "elif" => head "elif" ws
  | "else" => headBody (if opener = some "for" then ["endfor"] else ["endif"]) ws
  | "endblock" =>
    match ws with
    | [.name s] => if label = some s then some .alone else none
    | _ => headAlone ws
  | _ => headAlone ws

/-- An open tag: its name, the name it gives its block, and the tags that
may end its present body. A required block may hold blanks only. -/
structure Open where
  name : String
  label : Option String
  required : Bool
  ends : List String

/-- One tag, given the open tags around it; the open tags after it. -/
def step (opened : List Open) : List Word → Option (List Open)
  | .name name :: ws =>
    match opened with
    | [] => enter name ws []
    | o :: rest =>
      if o.ends.contains name then
        match afterBody (some o.name) o.label name ws with
        | some .alone => some rest
        | some (.body ends) => some ({ o with ends := ends } :: rest)
        | none => none
      else if o.required then none
      else enter name ws opened
  | _ => none
where
  enter (name : String) (ws : List Word) (opened : List Open) : Option (List Open) :=
    if isInner name then none
    else
      match head name ws with
      | some .alone => some opened
      | some (.body ends) =>
        let label := match ws with
          | .name s :: _ => some s
          | _ => none
        some (⟨name, label, name = "block" && ws.tail.contains (.name "required"), ends⟩ :: opened)
      | none => none

end Tag

end Template

end Conduit
