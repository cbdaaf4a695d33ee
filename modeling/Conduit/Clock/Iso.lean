import Conduit.Clock.Moment
import Conduit.Text.Numeral
import Conduit.Text.Quoted

/-!
# Reading ISO moments

A moment is written as a date, one character of any kind, a time of day
and an offset; all but the date may be absent. A date is written by month
and day or by week and weekday, with hyphens or without; a time with
colons or without, to the hour, the minute, the second or a fraction of
one.
-/

namespace Conduit

namespace Moment

inductive Error where
  | malformed (text : String)
  | yearOutOfRange (year : Nat)
  | monthOutOfRange | dayOutOfRange | hourOutOfRange | minuteOutOfRange | secondOutOfRange
  /-- An offset of a whole day or more, in microseconds. -/
  | offsetOutOfRange (offset : Int)
  deriving DecidableEq, Repr

/-- A span of time as messages show it: whole days, rounded down, and what
they leave. -/
def spanText (ticks : Int) : String :=
  let days := ticks / (ticksPerDay : Int)
  let inDay := (ticks % (ticksPerDay : Int)).toNat
  let part (name : String) (n : Int) := if n = 0 then [] else [name ++ "=" ++ toString n]
  "datetime.timedelta(" ++ ", ".intercalate (part "days" days ++
    part "seconds" (inDay / ticksPerSecond : Nat) ++
    part "microseconds" (inDay % ticksPerSecond : Nat)) ++ ")"

namespace Error

def message : Error → String
  | .malformed text => "Invalid isoformat string: " ++ Text.quote text
  | .yearOutOfRange year => "year " ++ toString year ++ " is out of range"
  | .monthOutOfRange => "month must be in 1..12"
  | .dayOutOfRange => "day is out of range for month"
  | .hourOutOfRange => "hour must be in 0..23"
  | .minuteOutOfRange => "minute must be in 0..59"
  | .secondOutOfRange => "second must be in 0..59"
  | .offsetOutOfRange offset =>
    "offset must be a timedelta strictly between -timedelta(hours=24) and " ++
      "timedelta(hours=24), not " ++ spanText offset ++ "."

end Error

/-! ## Parts of a text -/

/-- The number that exactly `n` digits write, and what follows them. -/
def digits? (n : Nat) (cs : List Char) : Option (Nat × List Char) :=
  let taken := cs.take n
  if taken.length = n && taken.all Char.isDigit then
    some (Text.decimalValue taken, cs.drop n)
  else none

/-- The length of the date at the start of a text. -/
def dateLength? (cs : List Char) : Option Nat :=
  if cs.length < 7 then none
  else if cs.length = 7 then some 7
  else if cs[4]? = some '-' then
    if cs[5]? = some 'W' then
      if cs[8]? = some '-' then
        if cs.length = 9 then none
        else if (cs[10]?.map Char.isDigit).getD false then some 8
        else some 10
      else some 8
    else some 10
  else if cs[4]? = some 'W' then
    let stop := 7 + ((cs.drop 7).takeWhile Char.isDigit).length
    if stop < 9 then some stop else if stop % 2 = 0 then some 7 else some 8
  else some 8

/-- A date as it was written, not yet checked against the calendar. -/
inductive WrittenDate where
  | byMonth (year month day : Nat)
  | byWeek (year week day : Nat)

/-- The date that the first `length` characters write. -/
def date? (length : Nat) (cs : List Char) : Option WrittenDate := do
  let (year, rest) ← digits? 4 cs
  let (hyphens, rest) := match rest with
    | '-' :: more => (true, more)
    | _ => (false, rest)
  /- What follows the hyphen that separates two parts. -/
  let next (cs : List Char) : Option (List Char) :=
    if hyphens then match cs with
      | '-' :: more => some more
      | _ => none
    else some cs
  match rest with
  | 'W' :: more => do
    let (week, rest) ← digits? 2 more
    if cs.length - rest.length < length then
      let (day, _) ← digits? 1 (← next rest)
      pure (.byWeek year week day)
    else pure (.byWeek year week 1)
  | _ => do
    let (month, rest) ← digits? 2 rest
    let (day, _) ← digits? 2 (← next rest)
    pure (.byMonth year month day)

/-- A time of day as it was written. -/
structure WrittenTime where
  hour : Nat := 0
  minute : Nat := 0
  second : Nat := 0
  micro : Nat := 0

namespace WrittenTime

def ticks (t : WrittenTime) : Nat :=
  ((t.hour * 60 + t.minute) * 60 + t.second) * ticksPerSecond + t.micro

/-- A zero character ends a text. -/
def isEnd (c : Char) : Bool := c = '\x00'

/-- Microseconds of the digits after a point, and whether something
follows them. -/
def fraction? (cs : List Char) : Option (Nat × Bool) := do
  let n := min 6 cs.length
  let (value, rest) ← digits? n cs
  let left := match rest.dropWhile Char.isDigit with
    | [] => false
    | c :: _ => !isEnd c
  pure (value * Nat.pow 10 (6 - n), left)

/-- What comes after two digits of a time. -/
inductive Next where
  | stop (left : Bool)
  | more (cs : List Char)
  | fraction (cs : List Char)

/-- What comes after two digits. A last character is left over if it is of
ASCII. -/
def next? (colons : Bool) : List Char → Option Next
  | [] => some (.stop false)
  | [c] => if c.toNat < 128 then some (.stop (!isEnd c)) else none
  | c :: rest =>
    if colons && c = ':' then some (.more rest)
    else if c = '.' || c = ',' then some (.fraction rest)
    else if colons then none
    else some (.more (c :: rest))

/-- Whether the parts of a time are separated by colons. -/
def hasColons : List Char → Bool
  | ':' :: _ => true
  | _ => false

/-- The time that a text writes, and whether something follows it. A
fraction after the hour or the minute still counts microseconds. -/
def read? (cs : List Char) : Option (WrittenTime × Bool) := do
  let (hour, rest) ← digits? 2 cs
  let colons := hasColons rest
  match ← next? colons rest with
  | .stop left => pure ({ hour }, left)
  | .fraction cs =>
    let (micro, left) ← fraction? cs
    pure ({ hour, micro }, left)
  | .more cs =>
    let (minute, rest) ← digits? 2 cs
    match ← next? colons rest with
    | .stop left => pure ({ hour, minute }, left)
    | .fraction cs =>
      let (micro, left) ← fraction? cs
      pure ({ hour, minute, micro }, left)
    | .more cs =>
      let (second, rest) ← digits? 2 cs
      match ← next? colons rest with
      | .stop left => pure ({ hour, minute, second }, left)
      | .fraction cs | .more cs =>
        let (micro, left) ← fraction? cs
        pure ({ hour, minute, second, micro }, left)

end WrittenTime

/-- The sign of an offset, or the letter of universal time. -/
def opensOffset (c : Char) : Bool := c = '+' || c = '-' || c = 'Z'

/-- An offset from its first character on, in microseconds. One whose
seconds are zero is zero. -/
def offset? : List Char → Option Int
  | 'Z' :: rest =>
    match rest with
    | [] => some 0
    | c :: _ => if WrittenTime.isEnd c then some 0 else none
  | sign :: rest => do
    let (t, left) ← WrittenTime.read? rest
    if left then none
    else
      let ticks : Int := if t.ticks < ticksPerSecond then 0 else t.ticks
      pure (if sign = '-' then -ticks else ticks)
  | [] => none

/-- Time of day and offset. In front of an offset, what is left over after
a time is passed over. -/
def timeOffset? (cs : List Char) : Option (WrittenTime × Option Int) := do
  let time := cs.takeWhile fun c => !opensOffset c
  let (t, left) ← WrittenTime.read? time
  match cs.drop time.length with
  | [] => if left then none else pure (t, none)
  | zone => do pure (t, some (← offset? zone))

/-! ## Checks against the calendar -/

def checkDate (year month day : Nat) : Except Error Date :=
  if year < 1 ∨ Date.lastYear < year then .error (.yearOutOfRange year)
  else if month < 1 ∨ 12 < month then .error .monthOutOfRange
  else if day < 1 ∨ ((Date.monthLengths (Date.isLeap year))[month - 1]?).getD 0 < day then
    .error .dayOutOfRange
  else .ok ⟨year, month, day⟩

/-- The date of a weekday. Year 0 has weeks but no months. -/
def checkWeek (text : String) (year week day : Nat) : Except Error Date :=
  if year = 0 then
    if week = 0 ∨ 52 < week ∨ day = 0 ∨ 7 < day then .error (.malformed text)
    else .error .monthOutOfRange
  else if !Date.hasWeek year week ∨ day = 0 ∨ 7 < day then .error (.malformed text)
  else
    let d := Date.ofDays (Date.dayOfWeek year week day).toNat
    checkDate d.year d.month d.day

def checkWritten (text : String) : WrittenDate → Except Error Date
  | .byMonth year month day => checkDate year month day
  | .byWeek year week day => checkWeek text year week day

def checkTime (t : WrittenTime) : Except Error Unit :=
  if 23 < t.hour then .error .hourOutOfRange
  else if 59 < t.minute then .error .minuteOutOfRange
  else if 59 < t.second then .error .secondOutOfRange
  else .ok ()

def checkOffset : Option Int → Except Error Unit
  | some offset => if ticksPerDay ≤ offset.natAbs then .error (.offsetOutOfRange offset) else .ok ()
  | none => .ok ()

/-- Date, time and offset of a text. -/
def written? (cs : List Char) : Option (WrittenDate × WrittenTime × Option Int) := do
  let length ← dateLength? cs
  let date ← date? length cs
  match cs.drop length with
  | [] => pure (date, {}, none)
  | _ :: rest => do
    let (time, offset) ← timeOffset? rest
    pure (date, time, offset)

def parse (text : String) : Except Error Moment := do
  match written? text.toList with
  | none => .error (.malformed text)
  | some (written, time, offset) => do
    match written with
    | .byWeek _ _ _ => discard (weekExists written)
    | .byMonth _ _ _ => pure ()
    checkOffset offset
    let date ← checkWritten text written
    checkTime time
    .ok ⟨date.toDays * ticksPerDay + time.ticks, offset⟩
where
  /-- A week that no year has is found before anything else. -/
  weekExists (written : WrittenDate) : Except Error Unit :=
    match checkWritten text written with
    | .error (.malformed t) => .error (.malformed t)
    | _ => .ok ()

/-- The moment that a text writes for a clock of known offset; the letter
of universal time may stand for its offset, and no offset means it. -/
def parseFixed (text : String) : Except Error Moment := do
  let m ← parse (text.replace "Z" "+00:00")
  .ok { m with offset := some (m.offset.getD 0) }

end Moment

end Conduit
