import Conduit.Path.Basic
import Conduit.Text.Backslash
import Conduit.Text.Blank
import Conduit.Text.Digit

/-!
# Reading a dot path

A path is a name, then any number of `.name`, `[index]` and `['name']`;
the first name may stand in brackets as well. Between quotes a backslash
makes the next character plain, except at a line end. Where that reading
leaves a bracket open, a backslash may also stand for itself: `['a\']`
is the name `a\`.
-/

namespace Conduit

namespace DotPath

/-! ## Brackets -/

/-- The contents of a bracket: the sign and digits of an index, or what
stands between quotes, escapes included. -/
inductive Bracket where
  | index (negative : Bool) (digits : List Char)
  | quoted (body : List Char)

/-- The text after a closing bracket that only blanks may precede. -/
def closing? (cs : List Char) : Option (List Char) :=
  match Text.dropBlanks cs with
  | ']' :: rest => some rest
  | _ => none

/-- The body of a quoted name up to the quote `q` that a closing bracket
follows, and the text after that bracket. An escape takes two characters
if the name can be closed that way, else the backslash is a plain
character. -/
def quoted? (q : Char) : List Char → Option (List Char × List Char)
  | [] => none
  | '\\' :: c :: rest =>
    match if c = '\n' then none else quoted? q rest with
    | some (body, after) => some ('\\' :: c :: body, after)
    | none => (quoted? q (c :: rest)).map fun p => ('\\' :: p.1, p.2)
  | c :: rest =>
    if c = q then (closing? rest).map fun after => ([], after)
    else if c = '\n' then none
    else (quoted? q rest).map fun p => (c :: p.1, p.2)

/-- A minus sign, if there is one, and what follows it. -/
def sign : List Char → Bool × List Char
  | '-' :: rest => (true, rest)
  | cs => (false, cs)

/-- An index up to its closing bracket. -/
def indexed? (cs : List Char) : Option (Bracket × List Char) :=
  let digits := (sign cs).2.takeWhile Text.isDigit
  if digits.isEmpty then none
  else (closing? ((sign cs).2.drop digits.length)).map fun after =>
    (.index (sign cs).1 digits, after)

/-- A bracket after its opening `[`, and the text after it. -/
def bracket? (cs : List Char) : Option (Bracket × List Char) :=
  match Text.dropBlanks cs with
  | '\'' :: rest => (quoted? '\'' rest).map fun p => (.quoted p.1, p.2)
  | '"' :: rest => (quoted? '"' rest).map fun p => (.quoted p.1, p.2)
  | rest => indexed? rest

/-- The index that sign and digits write. -/
def index (negative : Bool) (digits : List Char) : Except Limit Int :=
  if Limit.numeralDigits < digits.length then .error (.longNumeral digits.length)
  else
    let n : Int := Text.digitsValue digits
    .ok (if negative then -n else n)

def stepOf : Bracket → Except PathError Step
  | .index negative digits =>
    match index negative digits with
    | .ok i => .ok (.index i)
    | .error l => .error (.limit l)
  | .quoted body => .ok (.field (String.ofList (Text.unescape body)))

/-! ## What is read is used up -/

theorem length_dropBlanks_le (cs : List Char) : (Text.dropBlanks cs).length ≤ cs.length :=
  (List.dropWhile_sublist _).length_le

theorem closing?_length {cs after : List Char} (h : closing? cs = some after) :
    after.length < cs.length := by
  have hle := length_dropBlanks_le cs
  unfold closing? at h
  split at h
  · rename_i rest heq
    cases h
    rw [heq, List.length_cons] at hle
    exact hle
  · cases h

theorem quoted?_length {q : Char} {cs : List Char} {p : List Char × List Char}
    (h : quoted? q cs = some p) : p.2.length < cs.length := by
  fun_induction quoted? q cs generalizing p with
  | case1 => cases h
  | case2 c rest body after heq ih =>
    cases h
    split at heq
    · cases heq
    · have := ih heq
      simp only [List.length_cons] at this ⊢
      omega
  | case3 c rest heq ih₁ ih₂ =>
    obtain ⟨r, hr, rfl⟩ := Option.map_eq_some_iff.1 h
    have := ih₂ hr
    simp only [List.length_cons] at this ⊢
    omega
  | case4 rest =>
    obtain ⟨after, hafter, rfl⟩ := Option.map_eq_some_iff.1 h
    have := closing?_length hafter
    simp only [List.length_cons] at this ⊢
    omega
  | case5 => cases h
  | case6 c rest hne hq hn ih =>
    obtain ⟨r, hr, rfl⟩ := Option.map_eq_some_iff.1 h
    have := ih hr
    simp only [List.length_cons] at this ⊢
    omega

theorem length_sign_le (cs : List Char) : (sign cs).2.length ≤ cs.length := by
  unfold sign
  split
  · exact Nat.le_succ _
  · exact Nat.le_refl _

theorem indexed?_length {cs : List Char} {p : Bracket × List Char} (h : indexed? cs = some p) :
    p.2.length < cs.length := by
  simp only [indexed?] at h
  split at h
  · cases h
  · obtain ⟨after, hafter, rfl⟩ := Option.map_eq_some_iff.1 h
    have h1 := closing?_length hafter
    have h2 := length_sign_le cs
    rw [List.length_drop] at h1
    exact Nat.lt_of_lt_of_le h1 (Nat.le_trans (Nat.sub_le _ _) h2)

theorem bracket?_length {cs : List Char} {p : Bracket × List Char} (h : bracket? cs = some p) :
    p.2.length < cs.length := by
  have hle := length_dropBlanks_le cs
  unfold bracket? at h
  split at h
  · rename_i rest heq
    obtain ⟨r, hr, rfl⟩ := Option.map_eq_some_iff.1 h
    have := quoted?_length hr
    rw [heq, List.length_cons] at hle
    exact Nat.lt_of_lt_of_le this (Nat.le_trans (Nat.le_succ _) hle)
  · rename_i rest heq
    obtain ⟨r, hr, rfl⟩ := Option.map_eq_some_iff.1 h
    have := quoted?_length hr
    rw [heq, List.length_cons] at hle
    exact Nat.lt_of_lt_of_le this (Nat.le_trans (Nat.le_succ _) hle)
  · exact Nat.lt_of_lt_of_le (indexed?_length h) hle

/-! ## Steps -/

def isNameChar (c : Char) : Bool := !(c = '.' || c = '[' || c = ']')

def nameOf (cs : List Char) : List Char := cs.takeWhile isNameChar

/-- The steps after the first name. `afterPoint` holds right after a point,
where a name must follow; offsets in errors count from the start of the
text. -/
def readSteps (text : String) (afterPoint : Bool) (cs : List Char) :
    Except PathError (List Step) :=
  let offset := text.length - cs.length
  match cs with
  | [] => if afterPoint then .error (.endsWithPoint text) else .ok []
  | '[' :: rest =>
    if afterPoint then .error (.bracketAfterPoint text)
    else
      match _h : bracket? rest with
      | none => .error (.malformedBracket text offset)
      | some (b, after) => do
        let step ← stepOf b
        let steps ← readSteps text false after
        .ok (step :: steps)
  | '.' :: rest =>
    if afterPoint then .error (.emptySegment text offset) else readSteps text true rest
  | c :: rest =>
    if afterPoint ∧ isNameChar c then do
      let name := nameOf rest
      let steps ← readSteps text false (rest.drop name.length)
      .ok (.field (String.ofList (c :: name)) :: steps)
    else .error (.unexpected c text offset)
termination_by cs.length
decreasing_by
  · have := bracket?_length _h
    simp only [List.length_cons] at this ⊢
    omega
  · simp only [List.length_cons]
    omega
  · simp only [List.length_drop, List.length_cons]
    omega

def parse (text : String) : Except PathError DotPath :=
  match text.toList with
  | [] => .error .empty
  | '[' :: rest =>
    match bracket? rest with
    | none => .error (.malformedBracket text 0)
    | some (.index _ _, _) => .error (.noFirstName text)
    | some (.quoted body, after) => do
      let steps ← readSteps text false after
      .ok ⟨text, String.ofList (Text.unescape body), steps⟩
  | '.' :: _ => .error (.emptySegment text 0)
  | c :: rest =>
    if isNameChar c then do
      let name := nameOf rest
      let steps ← readSteps text false (rest.drop name.length)
      .ok ⟨text, String.ofList (c :: name), steps⟩
    else .error (.unexpected c text 0)

end DotPath

end Conduit
