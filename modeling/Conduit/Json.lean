import Conduit.Limit
import Conduit.Text.Numeral
import Conduit.Value.Basic

/-!
# JSON documents

`Json.read` reads a JSON text into a value. Beyond the standard it takes
`NaN`, `Infinity` and `-Infinity`; of repeated names in an object the
last value counts, at the place of the first. An error names what was
expected and where, by line, column and offset.
-/

namespace Conduit

namespace Json

/-! ## Errors -/

inductive Fault where
  | noValue | noName | noColon | noComma | extraData
  | unterminated | controlCharacter | badEscape | badUnicodeEscape | byteOrderMark
  deriving DecidableEq, Repr

namespace Fault

def text : Fault → String
  | .noValue => "Expecting value"
  | .noName => "Expecting property name enclosed in double quotes"
  | .noColon => "Expecting ':' delimiter"
  | .noComma => "Expecting ',' delimiter"
  | .extraData => "Extra data"
  | .unterminated => "Unterminated string starting at"
  | .controlCharacter => "Invalid control character at"
  | .badEscape => "Invalid \\escape"
  | .badUnicodeEscape => "Invalid \\uXXXX escape"
  | .byteOrderMark => "Unexpected UTF-8 BOM (decode using utf-8-sig)"

end Fault

inductive Error where
  | malformed (fault : Fault) (offset : Nat)
  | limit (l : Limit)
  deriving DecidableEq, Repr

/-- The fault and its place in the text: lines and columns from one, the
offset in characters from zero. -/
def Error.message (source : List Char) : Error → String
  | .malformed fault offset =>
    let before := source.take offset
    let line := before.count '\n' + 1
    let column := (before.reverse.takeWhile (· ≠ '\n')).length + 1
    fault.text ++ ": line " ++ toString line ++ " column " ++ toString column ++ " (char " ++
      toString offset ++ ")"
  | .limit l => l.message

/-! ## Characters -/

/-- What is left of the text and how much was read. -/
structure Cursor where
  rest : List Char
  offset : Nat

namespace Cursor

def skip (n : Nat) (c : Cursor) : Cursor := ⟨c.rest.drop n, c.offset + n⟩

def isSpace (c : Char) : Bool := c = ' ' || c = '\t' || c = '\n' || c = '\r'

def skipSpaces (c : Cursor) : Cursor :=
  let n := (c.rest.takeWhile isSpace).length
  c.skip n

end Cursor

def fail {α : Type} (fault : Fault) (offset : Nat) : Except Error (α × Cursor) :=
  .error (.malformed fault offset)

/-- Four hexadecimal digits as a code unit. -/
def unit? (a b c d : Char) : Option Nat := do
  let a ← Text.hexValue? a
  let b ← Text.hexValue? b
  let c ← Text.hexValue? c
  let d ← Text.hexValue? d
  pure (((a * 16 + b) * 16 + c) * 16 + d)

def isHighHalf (n : Nat) : Bool := 0xD800 ≤ n && n < 0xDC00

def isLowHalf (n : Nat) : Bool := 0xDC00 ≤ n && n < 0xE000

/-- The character of a code unit; half a surrogate pair is none, and shows
as the replacement character. -/
def unitChar (n : Nat) : Char := if 0xD800 ≤ n ∧ n < 0xE000 then '\uFFFD' else Char.ofNat n

def joinHalves (high low : Nat) : Char :=
  Char.ofNat (0x10000 + (high - 0xD800) * 0x400 + (low - 0xDC00))

/-- The character that a one-letter escape stands for. -/
def escape? : Char → Option Char
  | '"' => some '"'
  | '\\' => some '\\'
  | '/' => some '/'
  | 'b' => some '\x08'
  | 'f' => some '\x0c'
  | 'n' => some '\n'
  | 'r' => some '\r'
  | 't' => some '\t'
  | _ => none

/-! ## Strings -/

/-- The rest of a string after its opening quote, which stood at `start`.
The characters read so far are kept in reverse. -/
def stringBody (start : Nat) : List Char → Nat → List Char → Except Error (String × Cursor)
  | [], _, _ => fail .unterminated start
  | '"' :: rest, at_, read => .ok (String.ofList read.reverse, ⟨rest, at_ + 1⟩)
  | '\\' :: 'u' :: a :: b :: c :: d :: rest, at_, read =>
    match unit? a b c d, rest with
    | none, _ => fail .badUnicodeEscape (at_ + 1)
    | some _, [] => fail .badUnicodeEscape (at_ + 1)
    | some high, '\\' :: 'u' :: e :: f :: g :: h :: x :: more =>
      if isHighHalf high then
        match unit? e f g h with
        | none => fail .badUnicodeEscape (at_ + 7)
        | some low =>
          if isLowHalf low then
            stringBody start (x :: more) (at_ + 12) (joinHalves high low :: read)
          else stringBody start ('\\' :: 'u' :: e :: f :: g :: h :: x :: more) (at_ + 6)
            (unitChar high :: read)
      else stringBody start ('\\' :: 'u' :: e :: f :: g :: h :: x :: more) (at_ + 6)
        (unitChar high :: read)
    | some high, next :: more => stringBody start (next :: more) (at_ + 6) (unitChar high :: read)
  | '\\' :: 'u' :: _, at_, _ => fail .badUnicodeEscape (at_ + 1)
  | '\\' :: c :: rest, at_, read =>
    match escape? c with
    | some e => stringBody start rest (at_ + 2) (e :: read)
    | none => fail .badEscape at_
  | ['\\'], _, _ => fail .unterminated start
  | c :: rest, at_, read =>
    if c < ' ' then fail .controlCharacter at_ else stringBody start rest (at_ + 1) (c :: read)

/-! ## Numbers -/

/-- The fraction digits after a point, if a digit follows the point. -/
def fractionDigits : List Char → List Char
  | '.' :: rest => rest.takeWhile Char.isDigit
  | _ => []

/-- The exponent after `e` or `E` and its length in characters; no digits,
no exponent. -/
def exponent? : List Char → Option (Int × Nat)
  | e :: rest =>
    if e = 'e' ∨ e = 'E' then
      let (negative, signed, digits) := match rest with
        | '-' :: more => (true, 1, more.takeWhile Char.isDigit)
        | '+' :: more => (false, 1, more.takeWhile Char.isDigit)
        | more => (false, 0, more.takeWhile Char.isDigit)
      if digits.isEmpty then none
      else
        let n : Int := Text.decimalValue digits
        some (if negative then -n else n, 1 + signed + digits.length)
    else none
  | [] => none

/-- The digits before point and exponent: a lone zero or a run that does
not start with one. -/
def wholeDigits : List Char → List Char
  | '0' :: _ => ['0']
  | cs => cs.takeWhile Char.isDigit

/-- A number. With a fraction or an exponent it is a double; `longest`
bounds the digits of an integer. -/
def number (longest : Option Nat) (c : Cursor) : Except Error (Value × Cursor) :=
  let (negative, body) := match c.rest with
    | '-' :: rest => (true, rest)
    | rest => (false, rest)
  let whole := wholeDigits body
  if whole.isEmpty then fail .noValue c.offset
  else
    let afterWhole := body.drop whole.length
    let fraction := fractionDigits afterWhole
    let point := if fraction.isEmpty then 0 else fraction.length + 1
    let power := exponent? (afterWhole.drop point)
    let size := (if negative then 1 else 0) + whole.length + point + (power.map Prod.snd).getD 0
    if fraction.isEmpty ∧ power.isNone then
      if longest.any (· < whole.length) then .error (.limit (.longNumeral whole.length))
      else
        let n : Int := Text.decimalValue whole
        .ok (.int (if negative then -n else n), c.skip size)
    else
      let shift := (power.map Prod.fst).getD 0
      let digits := Text.decimalValue (whole ++ fraction)
      .ok (.number (.double (.ofDecimal negative digits (shift - fraction.length))), c.skip size)

/-! ## Values -/

def constants : List (List Char × Value) :=
  [("null".toList, .null), ("true".toList, .bool true), ("false".toList, .bool false),
   ("NaN".toList, .number (.double .nan)), ("Infinity".toList, .number (.double (.infinite false))),
   ("-Infinity".toList, .number (.double (.infinite true)))]

mutual

/-- One value. The fuel is the number of characters left, more than the
depth to which values can nest in them. -/
def value (longest : Option Nat) : Nat → Cursor → Except Error (Value × Cursor)
  | 0, c => fail .noValue c.offset
  | fuel + 1, c =>
    match c.rest with
    | '"' :: rest => do
      let (s, next) ← stringBody c.offset rest (c.offset + 1) []
      .ok (.str s, next)
    | '\x7b' :: _ =>
      let inner := (c.skip 1).skipSpaces
      match inner.rest with
      | '\x7d' :: _ => .ok (.obj [], inner.skip 1)
      | _ => do
        let (fields, next) ← members longest fuel inner []
        .ok (.obj fields, next)
    | '[' :: _ =>
      let inner := (c.skip 1).skipSpaces
      match inner.rest with
      | ']' :: _ => .ok (.arr [], inner.skip 1)
      | _ => do
        let (items, next) ← elements longest fuel inner []
        .ok (.arr items, next)
    | rest =>
      match constants.find? fun p => p.1.isPrefixOf rest with
      | some (name, v) => .ok (v, c.skip name.length)
      | none => number longest c

/-- The members of an object up to its end, those before in `read`. -/
def members (longest : Option Nat) :
    Nat → Cursor → Fields Value → Except Error (Fields Value × Cursor)
  | 0, c, _ => fail .noName c.offset
  | fuel + 1, c, read =>
    match c.rest with
    | '"' :: rest => do
      let (name, next) ← stringBody c.offset rest (c.offset + 1) []
      let colon := next.skipSpaces
      match colon.rest with
      | ':' :: _ => do
        let (v, next) ← value longest fuel (colon.skip 1).skipSpaces
        let fields := Fields.set name v read
        let next := next.skipSpaces
        match next.rest with
        | '\x7d' :: _ => .ok (fields, next.skip 1)
        | ',' :: _ => members longest fuel (next.skip 1).skipSpaces fields
        | _ => fail .noComma next.offset
      | _ => fail .noColon colon.offset
    | _ => fail .noName c.offset

/-- The elements of an array up to its end, those before in `read`, in
reverse. -/
def elements (longest : Option Nat) : Nat → Cursor → List Value → Except Error (List Value × Cursor)
  | 0, c, _ => fail .noValue c.offset
  | fuel + 1, c, read => do
    let (v, next) ← value longest fuel c
    let next := next.skipSpaces
    match next.rest with
    | ']' :: _ => .ok ((v :: read).reverse, next.skip 1)
    | ',' :: _ => elements longest fuel (next.skip 1).skipSpaces (v :: read)
    | _ => fail .noComma next.offset

end

/-- The value that a whole text writes. An integer may have at most
`longest` digits, if that is given. -/
def read (longest : Option Nat) (source : List Char) : Except Error Value :=
  match source with
  | '\uFEFF' :: _ => .error (.malformed .byteOrderMark 0)
  | _ => do
    let (v, next) ← value longest (source.length + 1) (Cursor.mk source 0).skipSpaces
    let next := next.skipSpaces
    if next.rest.isEmpty then .ok v else .error (.malformed .extraData next.offset)

end Json

end Conduit
