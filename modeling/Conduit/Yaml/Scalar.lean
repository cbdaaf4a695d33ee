import Conduit.Text.Digit
import Conduit.Text.Blank
import Conduit.Value.Basic
import Conduit.Yaml.Error
import Conduit.Yaml.Tag

/-!
# The values of scalars

What the text of a scalar stands for, given its type. Integers may be
written to the bases 2, 8, 10, 16 and 60, floats to the bases 10 and 60;
underscores group digits and do not count.

This stands for the constructors of scalars in PyYAML.
-/

namespace Conduit

namespace Yaml

namespace Scalar

/-! ## Booleans -/

def booleans : List (String × Bool) := [
  ("yes", true), ("no", false), ("true", true), ("false", false), ("on", true), ("off", false)]

def lower (s : String) : String := String.ofList (s.toList.map Char.toLower)

def boolean (text : String) : Except Error Value :=
  match booleans.lookup (lower text) with
  | some b => .ok (.bool b)
  | none => .error (.boolean (lower text))

/-! ## Integers -/

/-- The value of a digit to a base of at most 16. -/
def digit? (base : Nat) (c : Char) : Option Nat :=
  let value := match Text.digitValue? c with
    | some d => some d
    | none =>
      if 'a' ≤ c && c ≤ 'f' then some (c.toNat - 87)
      else if 'A' ≤ c && c ≤ 'F' then some (c.toNat - 55)
      else none
  value.filter (· < base)

def sign : List Char → Bool × List Char
  | '-' :: rest => (true, rest)
  | '+' :: rest => (false, rest)
  | cs => (false, cs)

/-- The mark of a base in front of its digits. -/
def dropBaseMark (base : Nat) (cs : List Char) : List Char :=
  match cs with
  | '0' :: mark :: rest =>
    if (base, mark.toLower) ∈ [(2, 'b'), (8, 'o'), (16, 'x')] then rest else cs
  | _ => cs

/-- The integer that a text writes to a base, with blanks around it. -/
def integerTo (base : Nat) (cs : List Char) : Except Error Int :=
  let (negative, body) := sign (Text.dropBlanksEnd (Text.dropBlanks cs))
  let digits := dropBaseMark base body
  if base = 10 ∧ Limit.numeralDigits < digits.length ∧ digits.all Text.isDigit then
    .error (.limit (.longNumeral digits.length))
  else match digits.foldlM (fun n c => (digit? base c).map (base * n + ·)) 0 with
    | some n =>
      if digits.isEmpty then .error (.integer base (String.ofList cs))
      else .ok (if negative then -(n : Int) else n)
    | none => .error (.integer base (String.ofList cs))

def parts (cs : List Char) : List (List Char) := (cs.splitOn ':')

/-- Parts to the base 60. -/
def sexagesimal (values : List Int) : Int := values.foldl (fun n d => 60 * n + d) 0

def unsigned (cs : List Char) : Except Error Int := do
  match cs with
  | [] => .error .emptyNumber
  | ['0'] => .ok 0
  | '0' :: 'b' :: digits => integerTo 2 digits
  | '0' :: 'x' :: digits => integerTo 16 digits
  | '0' :: digits => integerTo 8 ('0' :: digits)
  | cs =>
    if cs.contains ':' then .ok (sexagesimal (← (parts cs).mapM (integerTo 10)))
    else integerTo 10 cs

def integer (text : String) : Except Error Value := do
  let (negative, body) := sign (text.toList.filter (· ≠ '_'))
  let n ← unsigned body
  .ok (.int (if negative then -n else n))

/-! ## Floats -/

/-- A run of decimal digits and what follows it. -/
def run (cs : List Char) : List Char × List Char :=
  (cs.takeWhile Text.isDigit, cs.dropWhile Text.isDigit)

/-- The exponent of a decimal, if the rest of the text is none or an
exponent. -/
def exponent? : List Char → Option Int
  | [] => some 0
  | 'e' :: rest =>
    let (negative, body) := sign rest
    let (digits, rest) := run body
    if digits.isEmpty || !rest.isEmpty then none
    else
      let n : Int := Text.digitsValue digits
      some (if negative then -n else n)
  | _ => none

/-- The double of a decimal in small letters without a sign. -/
def decimal? (negative : Bool) (cs : List Char) : Option Double :=
  if cs = "inf".toList ∨ cs = "infinity".toList then some (.infinite negative)
  else if cs = "nan".toList then some .nan
  else
    let (whole, rest) := run cs
    let (fraction, rest) := match rest with
      | '.' :: rest => run rest
      | rest => ([], rest)
    if whole.isEmpty && fraction.isEmpty then none
    else (exponent? rest).map fun e =>
      .ofDecimal negative (Text.digitsValue (whole ++ fraction)) (e - fraction.length)

/-- The double that a text in small letters writes, with blanks around it. -/
def decimal (cs : List Char) : Except Error Double :=
  let (negative, body) := sign (Text.dropBlanksEnd (Text.dropBlanks cs))
  match decimal? negative body with
  | some x => .ok x
  | none => .error (.float (String.ofList cs))

/-- Parts to the base 60, added up from the last one. -/
def sexagesimalFloat : List Double → Nat → Double → Double
  | [], _, sum => sum
  | x :: rest, base, sum =>
    let scaled := x.mul ((Double.ofInt? base).getD (.infinite false))
    sexagesimalFloat rest (60 * base) (sum.add scaled)

def unsignedFloat (cs : List Char) : Except Error Double := do
  match cs with
  | [] => .error .emptyNumber
  | cs =>
    if cs = ".inf".toList then .ok (.infinite false)
    else if cs = ".nan".toList then .ok .nan
    else if cs.contains ':' then
      .ok (sexagesimalFloat (← (parts cs).mapM decimal).reverse 1 (.zero false))
    else decimal cs

def float (text : String) : Except Error Value := do
  let (negative, body) := sign ((text.toList.filter (· ≠ '_')).map Char.toLower)
  let x ← unsignedFloat body
  .ok (.number (.double (if negative then x.neg else x)))

/-! ## Dates -/

/-- Between `least` and two digits, and what follows them. -/
def short? (least : Nat) (cs : List Char) : Option (Nat × List Char) :=
  let digits := (cs.take 2).takeWhile Char.isDigit
  if digits.length < least then none else some (Text.decimalValue digits, cs.drop digits.length)

def expect? (c : Char) : List Char → Option (List Char)
  | d :: rest => if c = d then some rest else none
  | [] => none

structure Zone where
  /-- Microseconds by which the clock is ahead of universal time. -/
  offset : Option Int := none

/-- The offset at the end of a timestamp, behind blanks. -/
def zone? (cs : List Char) : Option Zone := do
  match cs.dropWhile fun c => c = ' ' || c = '\t' with
  | [] => if cs.isEmpty then some {} else none
  | ['Z'] => some ⟨some 0⟩
  | mark :: rest =>
    let negative ← if mark = '-' then some true else if mark = '+' then some false else none
    let (hours, rest) ← short? 1 rest
    let (minutes, rest) ← match rest with
      | ':' :: rest => short? 2 rest
      | rest => some (0, rest)
    if !rest.isEmpty then none
    else
      let ticks : Int := (hours * 60 + minutes) * 60 * Moment.ticksPerSecond
      some ⟨some (if negative then -ticks else ticks)⟩

/-- The digits of a fraction of a second as microseconds, rounded down. -/
def microseconds (digits : List Char) : Nat :=
  Text.decimalValue ((digits ++ List.replicate 6 '0').take 6)

/-- The time of day in a timestamp and its offset. -/
def time? (cs : List Char) : Option (Moment.WrittenTime × Zone) := do
  let cs ← match cs with
    | 'T' :: rest => some rest
    | 't' :: rest => some rest
    | ' ' :: rest => some (rest.dropWhile fun c => c = ' ' || c = '\t')
    | '\t' :: rest => some (rest.dropWhile fun c => c = ' ' || c = '\t')
    | _ => none
  let (hour, cs) ← short? 1 cs
  let (minute, cs) ← short? 2 (← expect? ':' cs)
  let (second, cs) ← short? 2 (← expect? ':' cs)
  let (digits, cs) := match cs with
    | '.' :: rest => (rest.takeWhile Char.isDigit, rest.dropWhile Char.isDigit)
    | cs => ([], cs)
  some ({ hour, minute, second, micro := microseconds digits }, ← zone? cs)

/-- Year, month and day of a timestamp, and what follows them. -/
def date? (cs : List Char) : Option (Nat × Nat × Nat × List Char) := do
  let year := cs.take 4
  if year.length < 4 || !year.all Char.isDigit then none
  else
    let (month, rest) ← short? 1 (← expect? '-' (cs.drop 4))
    let (day, rest) ← short? 1 (← expect? '-' rest)
    some (Text.decimalValue year, month, day, rest)

def isoDate (d : Date) : String :=
  Moment.padded 4 d.year ++ "-" ++ Moment.padded 2 d.month ++ "-" ++ Moment.padded 2 d.day

/-- A date, or a moment if a time is given. -/
def timestamp (text : String) : Except Error Value := do
  match date? text.toList with
  | none => .error .malformed
  | some (year, month, day, []) =>
    .ok (.date (isoDate (← (Moment.checkDate year month day).mapError .timestamp)))
  | some (year, month, day, rest) =>
    match time? rest with
    | none => .error .malformed
    | some (time, zone) =>
      (Moment.checkOffset zone.offset).mapError .timestamp
      let date ← (Moment.checkDate year month day).mapError .timestamp
      (Moment.checkTime time).mapError .timestamp
      .ok (.date (Moment.iso ⟨date.toDays * Moment.ticksPerDay + time.ticks, zone.offset⟩))

/-! ## All types -/

def value (tag : Tag) (text : String) : Except Error Value :=
  match tag with
  | .null => .ok .null
  | .bool => boolean text
  | .int => integer text
  | .float => float text
  | .timestamp => timestamp text
  | .str => .ok (.str text)
  | _ => .error .malformed

end Scalar

end Yaml

end Conduit
