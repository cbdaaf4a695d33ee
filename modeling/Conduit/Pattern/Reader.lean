import Conduit.Pattern.Basic
import Conduit.Text.Numeral

/-!
# Reading a pattern

The written form of patterns: special characters, escapes, sets in
brackets, groups and repetitions. A reference has to be to a group that
is closed already, and what is looked for behind a place has to have a
fixed width.
-/

namespace Conduit

namespace Pattern

/-- What is known of the groups of a pattern while it is read. -/
structure Groups where
  /-- The number of the next group. -/
  next : Nat := 1
  /-- The closed groups, with their least and greatest widths. -/
  closed : List (Nat × Nat × Option Nat) := []
  names : List (String × Nat) := []
  /-- The groups from this number on cannot be referred to. -/
  behindFrom : Option Nat := none
  /-- Numbers that have to be those of groups in the end. -/
  wanted : List Nat := []

/-- One item of a sequence, as a repetition after it sees it. -/
inductive ItemKind where
  | anchor | repeated | other
  deriving DecidableEq

structure Item where
  kind : ItemKind
  pattern : Pattern

/-! ## Widths -/

/-- The least and the greatest number of characters. -/
abbrev Width := Nat × Option Nat

def addWidths (v w : Width) : Width :=
  (v.1 + w.1, match v.2, w.2 with
    | some a, some b => some (a + b)
    | _, _ => none)

def eitherWidth (v w : Width) : Width :=
  (min v.1 w.1, match v.2, w.2 with
    | some a, some b => some (max a b)
    | _, _ => none)

/-- A width, taken from `least` to `most` times. -/
def timesWidth (w : Width) (least : Nat) (most : Option Nat) : Width :=
  (w.1 * least, match w.2, most with
    | some a, some b => some (a * b)
    | some 0, none => some 0
    | none, some 0 => some 0
    | _, _ => none)

mutual

def width (closed : List (Nat × Width)) : Pattern → Width
  | .one _ => (1, some 1)
  | .anchor _ => (0, some 0)
  | .sequence ps => sequenceWidth closed ps
  | .choice ps => choiceWidth closed ps
  | .repeated p least most _ => timesWidth (width closed p) least most
  | .capture _ p => width closed p
  | .reference n _ => (closed.lookup n).getD (0, some 0)
  | .conditional _ yes no => eitherWidth (width closed yes) (width closed no)
  | .ahead _ _ => (0, some 0)
  | .behind _ _ _ => (0, some 0)
  | .atomic p => width closed p

def sequenceWidth (closed : List (Nat × Width)) : List Pattern → Width
  | [] => (0, some 0)
  | p :: rest => addWidths (width closed p) (sequenceWidth closed rest)

def choiceWidth (closed : List (Nat × Width)) : List Pattern → Width
  | [] => (0, some 0)
  | [p] => width closed p
  | p :: rest => eitherWidth (width closed p) (choiceWidth closed rest)

end

/-! ## Characters -/

def oneChar (flags : Flags) (code : Nat) : Pattern :=
  .one ⟨false, [.range code code], flags.ignoreCase, flags.ascii⟩

def isOctal (c : Char) : Bool := '0' ≤ c && c ≤ '7'

def baseValue (base : Nat) (cs : List Char) : Nat :=
  cs.foldl (fun n c => base * n + (Text.hexValue? c).getD 0) 0

/-- The code that exactly `n` hexadecimal digits write, and what follows. -/
def hexCode? (n : Nat) (cs : List Char) : Option (Nat × List Char) :=
  let digits := cs.take n
  let code := baseValue 16 digits
  if digits.length = n && digits.all (fun c => (Text.hexValue? c).isSome) && code < 0x110000 then
    some (code, cs.drop n)
  else none

/-- The characters that a letter after a backslash writes. -/
def controlCode? : Char → Option Nat
  | 'a' => some 7
  | 'f' => some 12
  | 'n' => some 10
  | 'r' => some 13
  | 't' => some 9
  | 'v' => some 11
  | _ => none

def kindOf? : Char → Option Member
  | 'd' => some (.kind .digit false)
  | 'D' => some (.kind .digit true)
  | 's' => some (.kind .space false)
  | 'S' => some (.kind .space true)
  | 'w' => some (.kind .word false)
  | 'W' => some (.kind .word true)
  | _ => none

/-- The code that an escape of hexadecimal digits or of a sign writes. -/
def codeEscape? (c : Char) (rest : List Char) : Option (Nat × List Char) :=
  match controlCode? c with
  | some code => some (code, rest)
  | none =>
    if c = 'x' then hexCode? 2 rest
    else if c = 'u' then hexCode? 4 rest
    else if c = 'U' then hexCode? 8 rest
    else if c.isAlpha || c.isDigit then none
    else some (c.toNat, rest)

/-! ## Sets -/

/-- The octal digits of an escape in a set, and what follows. -/
def octalInSet? (cs : List Char) : Option (Nat × List Char) :=
  let digits := (cs.take 3).takeWhile isOctal
  let code := baseValue 8 digits
  if code ≤ 255 then some (code, cs.drop digits.length) else none

/-- One member of a set and what follows it. -/
def member? : List Char → Option (Member × List Char)
  | [] => none
  | '\\' :: c :: rest =>
    match kindOf? c with
    | some m => some (m, rest)
    | none =>
      let code := if c = 'b' then some (8, rest)
        else if isOctal c then octalInSet? (c :: rest)
        else codeEscape? c rest
      code.map fun p => (.range p.1 p.1, p.2)
  | ['\\'] => none
  | c :: rest => some (.range c.toNat c.toNat, rest)

def range? : Member → Member → Option Member
  | .range low l, .range high h =>
    if low = l && high = h && low ≤ high then some (.range low high) else none
  | _, _ => none

/-- The members of a set up to its closing bracket, which as the first
character is a member. The fuel is the length of the text. -/
def members? : Nat → Bool → List Char → Option (List Member × List Char)
  | 0, _, _ => none
  | fuel + 1, first, cs =>
    match cs with
    | ']' :: rest => if first then continueWith fuel (']' :: rest) else some ([], rest)
    | cs => continueWith fuel cs
where
  continueWith (fuel : Nat) (cs : List Char) : Option (List Member × List Char) := do
    let (m, rest) ← member? cs
    match rest with
    | '-' :: ']' :: after => pure ([m, .range 45 45], after)
    | '-' :: after => do
      let (high, after) ← member? after
      let r ← range? m high
      let (more, after) ← members? fuel false after
      pure (r :: more, after)
    | _ => do
      let (more, after) ← members? fuel false rest
      pure (m :: more, after)

/-- A set from behind its opening bracket on. -/
def set? (flags : Flags) (cs : List Char) : Option (Pattern × List Char) := do
  let (negated, cs) := match cs with
    | '^' :: rest => (true, rest)
    | _ => (false, cs)
  let (members, rest) ← members? (cs.length + 1) true cs
  pure (.one ⟨negated, members, flags.ignoreCase, flags.ascii⟩, rest)

/-! ## Escapes outside sets -/

def anchorOf? (flags : Flags) : Char → Option Anchor
  | 'A' => some .textStart
  | 'Z' => some .textEnd
  | 'b' => some (.boundary false flags.ascii)
  | 'B' => some (.boundary true flags.ascii)
  | _ => none

/-- Whether a group can be referred to. -/
def mayRefer (groups : Groups) (n : Nat) : Bool :=
  (groups.closed.lookup n).isSome && match groups.behindFrom with
    | some from_ => n < from_
    | none => true

/-- The pattern of an escape that begins with a digit: octal after a zero
or in three digits, else a reference. -/
def digitEscape? (flags : Flags) (groups : Groups) : List Char → Option (Pattern × List Char)
  | '0' :: rest =>
    let digits := (rest.take 2).takeWhile isOctal
    some (oneChar flags (baseValue 8 digits), rest.drop digits.length)
  | cs =>
    let three := cs.take 3
    if three.length = 3 && three.all isOctal then
      let code := baseValue 8 three
      if code ≤ 255 then some (oneChar flags code, cs.drop 3) else none
    else
      let digits := (cs.take 2).takeWhile Char.isDigit
      let n := baseValue 10 digits
      if mayRefer groups n then some (.reference n flags.ignoreCase, cs.drop digits.length)
      else none

/-- The item of an escape, from behind the backslash on. -/
def escape? (flags : Flags) (groups : Groups) : List Char → Option (Item × List Char)
  | [] => none
  | c :: rest =>
    match anchorOf? flags c with
    | some a => some (⟨.anchor, .anchor a⟩, rest)
    | none =>
      match kindOf? c with
      | some m => some (⟨.other, .one ⟨false, [m], flags.ignoreCase, flags.ascii⟩⟩, rest)
      | none =>
        if c.isDigit then
          (digitEscape? flags groups (c :: rest)).map fun p => (⟨.other, p.1⟩, p.2)
        else (codeEscape? c rest).map fun p => (⟨.other, oneChar flags p.1⟩, p.2)

/-! ## Repetitions -/

/-- The bounds of a repetition, from its first character on. -/
def bounds? : List Char → Option (Nat × Option Nat × List Char)
  | '?' :: rest => some (0, some 1, rest)
  | '*' :: rest => some (0, none, rest)
  | '+' :: rest => some (1, none, rest)
  | '\x7b' :: rest =>
    let low := rest.takeWhile Char.isDigit
    let afterLow := rest.drop low.length
    let least := baseValue 10 low
    match afterLow with
    | '\x7d' :: after => if low.isEmpty then none else some (least, some least, after)
    | ',' :: more =>
      let high := more.takeWhile Char.isDigit
      match more.drop high.length with
      | '\x7d' :: after =>
        some (least, if high.isEmpty then none else some (baseValue 10 high), after)
      | _ => none
    | _ => none
  | _ => none

/-- The most rounds that a repetition can ask for. -/
def mostRounds : Nat := 4294967295

def greed : List Char → Greed × List Char
  | '?' :: rest => (.lazy, rest)
  | '+' :: rest => (.possessive, rest)
  | rest => (.greedy, rest)

/-- The last item of a sequence, repeated. -/
def repeatLast? (least : Nat) (most : Option Nat) (g : Greed) : List Item → Option (List Item)
  | ⟨.other, p⟩ :: before =>
    if mostRounds ≤ least || most.any (fun m => mostRounds ≤ m || m < least) then none
    else some (⟨.repeated, .repeated p least most g⟩ :: before)
  | _ => none

/-! ## Flags -/

def flagLetters : List Char := "iLmsxatu".toList

def setFlag (on : Bool) (flags : Flags) : Char → Flags
  | 'i' => { flags with ignoreCase := on }
  | 'm' => { flags with multiline := on }
  | 's' => { flags with dotAll := on }
  | 'x' => { flags with verbose := on }
  | 't' => { flags with unrepeated := on }
  | 'a' => { flags with ascii := on, unicode := false }
  | 'u' => { flags with unicode := on, ascii := false }
  | _ => flags

/-- Letters that may be switched on together. -/
def compatible (letters : List Char) : Bool :=
  letters.all flagLetters.contains && !letters.contains 'L' &&
    !(letters.contains 'a' && letters.contains 'u')

/-- Flags for a whole pattern or for a group: what they make of the flags
outside, and what follows; `true` for a whole pattern. -/
def flags? (outside : Flags) (cs : List Char) : Option (Flags × Bool × List Char) := do
  let on := cs.takeWhile fun c => c ≠ ')' && c ≠ ':' && c ≠ '-'
  if !compatible on then none
  else
    let flags := on.foldl (setFlag true) outside
    match cs.drop on.length with
    | ')' :: rest =>
      let clash := (on.contains 'a' && outside.unicode) || (on.contains 'u' && outside.ascii)
      if on.isEmpty || clash then none else pure (flags, true, rest)
    | ':' :: rest => if on.contains 't' then none else pure (flags, false, rest)
    | '-' :: rest =>
      let off := rest.takeWhile fun c => c ≠ ':'
      match rest.drop off.length with
      | ':' :: after =>
        if on.contains 't' || off.isEmpty || !off.all (fun c => "imsx".toList.contains c) ||
            off.any on.contains then none
        else pure (off.foldl (setFlag false) flags, false, after)
      | _ => none
    | _ => none

/-! ## Groups -/

/-- Text up to a closing character, which is passed. -/
def upTo? (stop : Char) (cs : List Char) : Option (String × List Char) :=
  let name := cs.takeWhile (· ≠ stop)
  if name.length < cs.length && !name.isEmpty then
    some (String.ofList name, cs.drop (name.length + 1))
  else none

def isGroupName (name : String) : Bool :=
  match name.toList with
  | [] => false
  | c :: rest => Text.isWord c && !Text.isDigit c && rest.all Text.isWord

inductive GroupStart where
  | capture (name : Option String)
  | plain (flags : Flags)
  | atomic
  | look (ahead positive : Bool)
  | conditional (condition : String)
  | reference (name : String)
  | comment

/-- The start of a group, from behind its parenthesis on. -/
def groupStart? (flags : Flags) : List Char → Option (GroupStart × List Char)
  | '?' :: 'P' :: '<' :: rest => do
    let (name, rest) ← upTo? '>' rest
    if isGroupName name then pure (.capture (some name), rest) else none
  | '?' :: 'P' :: '=' :: rest => do
    let (name, rest) ← upTo? ')' rest
    if isGroupName name then pure (.reference name, rest) else none
  | '?' :: ':' :: rest => some (.plain flags, rest)
  | '?' :: '#' :: rest =>
    let body := rest.takeWhile (· ≠ ')')
    if body.length < rest.length then some (.comment, rest.drop (body.length + 1)) else none
  | '?' :: '=' :: rest => some (.look true true, rest)
  | '?' :: '!' :: rest => some (.look true false, rest)
  | '?' :: '<' :: '=' :: rest => some (.look false true, rest)
  | '?' :: '<' :: '!' :: rest => some (.look false false, rest)
  | '?' :: '>' :: rest => some (.atomic, rest)
  | '?' :: '(' :: rest => do
    let (condition, rest) ← upTo? ')' rest
    pure (.conditional condition, rest)
  | '?' :: rest =>
    match flags? flags rest with
    | some (inner, false, after) => some (.plain inner, after)
    | _ => none
  | rest => some (.capture none, rest)

/-- The group that a condition asks about. -/
def conditionGroup? (groups : Groups) (condition : String) : Option (Nat × Groups) :=
  if isGroupName condition then
    (groups.names.lookup condition).map fun n => (n, groups)
  else
    let cs := condition.toList
    let digits := Text.dropBlanksEnd (Text.dropBlanks cs)
    if !digits.isEmpty && digits.all Char.isDigit then
      let n := baseValue 10 digits
      if n = 0 then none else some (n, { groups with wanted := n :: groups.wanted })
    else none

def isVerboseBlank (c : Char) : Bool := c = ' ' || ('\t' ≤ c && c ≤ '\r')

/-- Items as one pattern; they are given backwards. -/
def sequenceOf (items : List Item) : Pattern :=
  match items with
  | [item] => item.pattern
  | _ => .sequence (items.reverse.map Item.pattern)

def choiceOf : List Pattern → Pattern
  | [p] => p
  | ps => .choice ps

def lookOf? (forward positive : Bool) (groups : Groups) (p : Pattern) : Option Pattern :=
  if forward then some (.ahead positive p)
  else match width groups.closed p with
    | (least, some most) => if least = most then some (.behind positive least p) else none
    | _ => none

mutual

/-- Alternatives up to a closing parenthesis or the end. -/
def alternatives? : Nat → Flags → Groups → List Char →
    Option (List Pattern × Groups × List Char)
  | 0, _, _, _ => none
  | fuel + 1, flags, groups, cs => do
    let (p, groups, rest) ← sequence? fuel flags groups [] cs
    match rest with
    | '|' :: more => do
      let (ps, groups, after) ← alternatives? fuel flags groups more
      pure (p :: ps, groups, after)
    | _ => pure ([p], groups, rest)

/-- Items up to a bar, a closing parenthesis or the end. -/
def sequence? : Nat → Flags → Groups → List Item → List Char →
    Option (Pattern × Groups × List Char)
  | 0, _, _, _, _ => none
  | fuel + 1, flags, groups, items, cs =>
    match cs with
    | [] => some (sequenceOf items, groups, [])
    | '|' :: rest => some (sequenceOf items, groups, '|' :: rest)
    | ')' :: rest => some (sequenceOf items, groups, ')' :: rest)
    | c :: rest =>
      if flags.verbose && isVerboseBlank c then sequence? fuel flags groups items rest
      else if flags.verbose && c = '#' then
        sequence? fuel flags groups items ((rest.dropWhile (· ≠ '\n')).drop 1)
      else if c = '\\' then do
        let (item, after) ← escape? flags groups rest
        sequence? fuel flags groups (item :: items) after
      else if c = '[' then do
        let (p, after) ← set? flags rest
        sequence? fuel flags groups (⟨.other, p⟩ :: items) after
      else if c = '.' then
        let members : List Member := if flags.dotAll then [] else [.range 10 10]
        sequence? fuel flags groups (⟨.other, .one ⟨true, members, false, false⟩⟩ :: items) rest
      else if c = '^' then
        let a : Anchor := if flags.multiline then .lineStart else .textStart
        sequence? fuel flags groups (⟨.anchor, .anchor a⟩ :: items) rest
      else if c = '$' then
        let a : Anchor := if flags.multiline then .lineEnd else .lastLineEnd
        sequence? fuel flags groups (⟨.anchor, .anchor a⟩ :: items) rest
      else if c = '(' then group? fuel flags groups items rest
      else if c = '*' || c = '+' || c = '?' || c = '\x7b' then
        match bounds? (c :: rest) with
        | some (least, most, after) => do
          let (g, after) := greed after
          let items ← if flags.unrepeated then none else repeatLast? least most g items
          sequence? fuel flags groups items after
        | none => sequence? fuel flags groups (⟨.other, oneChar flags c.toNat⟩ :: items) rest
      else sequence? fuel flags groups (⟨.other, oneChar flags c.toNat⟩ :: items) rest

/-- A group from behind its parenthesis on, and the items after it. -/
def group? : Nat → Flags → Groups → List Item → List Char →
    Option (Pattern × Groups × List Char)
  | 0, _, _, _, _ => none
  | fuel + 1, flags, groups, items, cs => do
    let (start, rest) ← groupStart? flags cs
    match start with
    | .comment => sequence? fuel flags groups items rest
    | .reference name => do
      let n ← groups.names.lookup name
      if mayRefer groups n then
        sequence? fuel flags groups (⟨.other, .reference n flags.ignoreCase⟩ :: items) rest
      else none
    | .capture name => do
      let n := groups.next
      let names ← match name with
        | some name =>
          if (groups.names.lookup name).isSome then none else some ((name, n) :: groups.names)
        | none => some groups.names
      let (p, groups, rest) ← inside fuel flags { groups with next := n + 1, names } rest
      let groups := { groups with closed := (n, width groups.closed p) :: groups.closed }
      sequence? fuel flags groups (⟨.other, .capture n p⟩ :: items) rest
    | .plain inner => do
      let (p, groups, rest) ← inside fuel inner groups rest
      sequence? fuel flags groups (⟨.other, p⟩ :: items) rest
    | .atomic => do
      let (p, groups, rest) ← inside fuel flags groups rest
      sequence? fuel flags groups (⟨.other, .atomic p⟩ :: items) rest
    | .look forward positive => do
      let outer := groups.behindFrom
      let behindFrom := if forward then outer else some (outer.getD groups.next)
      let (p, groups, rest) ← inside fuel flags { groups with behindFrom } rest
      let groups := { groups with behindFrom := outer }
      let look ← lookOf? forward positive groups p
      sequence? fuel flags groups (⟨.other, look⟩ :: items) rest
    | .conditional condition => do
      let (n, groups) ← conditionGroup? groups condition
      if groups.behindFrom.isSome && !mayRefer groups n then none
      else do
        let (yes, groups, rest) ← sequence? fuel flags groups [] rest
        let (no, groups, rest) ← match rest with
          | '|' :: more => sequence? fuel flags groups [] more
          | _ => some (.sequence [], groups, rest)
        match rest with
        | ')' :: after =>
          sequence? fuel flags groups (⟨.other, .conditional n yes no⟩ :: items) after
        | _ => none

/-- The alternatives of a group and its closing parenthesis. -/
def inside : Nat → Flags → Groups → List Char → Option (Pattern × Groups × List Char)
  | 0, _, _, _ => none
  | fuel + 1, flags, groups, cs => do
    let (ps, groups, rest) ← alternatives? fuel flags groups cs
    match rest with
    | ')' :: after => pure (choiceOf ps, groups, after)
    | _ => none

end

/-- The flags at the start of a pattern, with what is passed over among
them, and the rest of it. The fuel is the length of the text. -/
def leadingFlags : Nat → Flags → List Char → Flags × List Char
  | 0, flags, cs => (flags, cs)
  | fuel + 1, flags, cs =>
    match cs with
    | '(' :: '?' :: '#' :: _ =>
      match groupStart? flags (cs.drop 1) with
      | some (.comment, rest) => leadingFlags fuel flags rest
      | _ => (flags, cs)
    | '(' :: '?' :: rest =>
      match flags? flags rest with
      | some (inner, true, after) => leadingFlags fuel inner after
      | _ => (flags, cs)
    | c :: rest =>
      if flags.verbose && isVerboseBlank c then leadingFlags fuel flags rest
      else if flags.verbose && c = '#' then
        leadingFlags fuel flags ((rest.dropWhile (· ≠ '\n')).drop 1)
      else (flags, cs)
    | [] => (flags, [])

def parse? (text : String) : Option Pattern := do
  let cs := text.toList
  let (flags, rest) := leadingFlags cs.length {} cs
  let (ps, groups, rest) ← alternatives? (4 * (rest.length + 2)) flags {} rest
  if rest.isEmpty && groups.wanted.all (· < groups.next) then pure (choiceOf ps) else none

end Pattern

end Conduit
