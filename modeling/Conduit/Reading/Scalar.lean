import Conduit.Reading.Basic
import Conduit.Text.Blank
import Conduit.Text.Numeral

/-!
# Reading scalars

Strings are taken as they are. Where an integer or a boolean is wanted,
a value of another kind that clearly writes one is taken too.

These are the conversions of Pydantic.
-/

namespace Conduit

namespace Reading

def string : Value → Reading String
  | .str s => .done s
  | _ => complain .notString

/-- A word of a fixed list, as what it stands for. -/
def word {α : Type} (words : List (String × α)) (v : Value) : Reading α :=
  let found := match v with
    | .str s => Fields.get? s words
    | _ => none
  match found with
  | some a => .done a
  | none => complain (.notAWord (Fields.names words))

/-! ## Integers -/

/-- Blanks around a numeral; the information separators are none. -/
def isSpace (c : Char) : Bool := Text.isBlank c && !(28 ≤ c.toNat && c.toNat ≤ 31)

def trimSpace (cs : List Char) : List Char :=
  ((cs.dropWhile isSpace).reverse.dropWhile isSpace).reverse

/-- The integer of a sign and digits and nothing else. -/
def plainInteger? : List Char → Option Int
  | '-' :: cs =>
    if !cs.isEmpty && cs.all Char.isDigit then some (-(Text.decimalValue cs : Int)) else none
  | '+' :: cs => if !cs.isEmpty && cs.all Char.isDigit then some (Text.decimalValue cs) else none
  | cs => if !cs.isEmpty && cs.all Char.isDigit then some (Text.decimalValue cs) else none

/-- What follows leading zeros, with underscores among them; a lone zero
stays, also before a point. None if no numeral starts here. -/
def dropZeros? : List Char → Option (List Char)
  | '0' :: rest =>
    match rest.dropWhile fun c => c = '0' || c = '_' with
    | [] => some [(rest.getLast?).getD '0']
    | '.' :: more =>
      let before := '0' :: rest.takeWhile fun c => c = '0' || c = '_'
      some (before.getLast?.getD '0' :: '.' :: more)
    | c :: more => if c.isDigit then some (c :: more) else none
  | c :: rest => if c.isDigit || c = '-' then some (c :: rest) else none
  | [] => none

/-- Zeros after a point add nothing. -/
def dropFraction (cs : List Char) : List Char :=
  match cs.dropWhile (· ≠ '.') with
  | '.' :: zeros => if zeros.all (· = '0') then cs.takeWhile (· ≠ '.') else cs
  | _ => cs

/-- Whether two underscores stand side by side. -/
def hasDoubleUnderscore : List Char → Bool
  | '_' :: '_' :: _ => true
  | _ :: rest => hasDoubleUnderscore rest
  | [] => false

/-- Single underscores inside a numeral group its digits. -/
def dropUnderscores (cs : List Char) : List Char :=
  if cs.head? = some '_' || cs.getLast? = some '_' || hasDoubleUnderscore cs then cs
  else cs.filter (· ≠ '_')

def integerOfText? (s : String) : Option Int :=
  let cs := trimSpace s.toList
  match plainInteger? cs with
  | some i => some i
  | none => do
    let body ← match cs with
      | '+' :: '-' :: _ => none
      | '+' :: rest => some rest
      | _ => some cs
    let digits ← dropZeros? body
    plainInteger? (dropUnderscores (dropFraction digits))

/-- Whether the integer of a double is inside the range of signed words. -/
def fitsWord (i : Int) : Bool := -0x8000000000000000 < i && i < 0x8000000000000000

/-- An integer, also one written as a boolean, as a double without a
fraction, or in a text. -/
def integer : Value → Reading Int
  | .number (.int i) => .done i
  | .bool b => .done (if b then 1 else 0)
  | .number (.double x) =>
    match x with
    | .finite _ _ _ =>
      match x.toInt? with
      | some i => if fitsWord i then .done i else complain .hugeInteger
      | none => complain .fractional
    | _ => complain .infinite
  | .str s =>
    if Limit.numeralDigits < s.length then complain .hugeInteger
    else match integerOfText? s with
      | some i => .done i
      | none => complain .unreadableInteger
  | _ => complain .notInteger

/-- An integer that counts something. -/
def count (v : Value) : Reading Int :=
  (integer v).andThen fun i => if i < 0 then complain .negative else .done i

/-! ## Booleans -/

def lowerAscii (s : String) : String := String.ofList (s.toList.map Char.toLower)

def booleanOfText? (s : String) : Option Bool :=
  let t := lowerAscii s
  if ["1", "on", "t", "true", "y", "yes"].contains t then some true
  else if ["0", "off", "f", "false", "n", "no"].contains t then some false
  else none

def booleanOfInteger : Int → Reading Bool
  | 0 => .done false
  | 1 => .done true
  | _ => complain .unreadableBoolean

/-- A boolean, also one written as zero or one, or in a text. -/
def boolean : Value → Reading Bool
  | .bool b => .done b
  | .number (.int i) => booleanOfInteger i
  | .number (.double x) =>
    match x.toInt? with
    | some i => if fitsWord i then booleanOfInteger i else complain .notBoolean
    | none => complain .notBoolean
  | .str s =>
    match booleanOfText? s with
    | some b => .done b
    | none => complain .unreadableBoolean
  | _ => complain .notBoolean

/-- What stands in a place that may hold nothing. -/
def nullable {α : Type} (read : Value → Reading α) : Value → Reading (Option α)
  | .null => .done none
  | v => (read v).map some

end Reading

end Conduit
