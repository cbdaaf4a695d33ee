import Conduit.Expr.Basic
import Conduit.Proofs.Path.Printer
import Conduit.Proofs.Query.Printer
import Conduit.Proofs.Query.Reader

/-!
# Written filters

A condition is written with parentheses around each operand that binds more
loosely than its connective, or just as loosely, and around each condition that
is compared; nowhere else. Between the marks of a path stand names in quotes and
indices, each in brackets.

What is written is scanned into the lexemes of the condition. A lexeme looks at
what follows it only in two cases: a name or numeral must end, and `!`, `<` and
`>` must not be followed by `=`. So an operand is scanned from its text if it
stands before something that ends it, and no operand begins with `=`.
-/

namespace Conduit.Query

/-! ## Conditions -/

inductive Constant where
  | integer (i : Int)
  | string (s : String)
  | bool (b : Bool)
  | null

/-- A path in a filter, from the candidate or from a name. -/
inductive Place where
  | candidate (steps : List Step)
  | root (head : String) (rest : List Step)

mutual

/-- What a filter asks of a candidate. -/
inductive Condition where
  | or (first : Condition) (more : List Condition)
  | and (first : Condition) (more : List Condition)
  | not (operand : Condition)
  | compare (op : Comparison) (left right : Operand)
  | present (p : Place)
  | literal (a : Constant)

/-- One side of a comparison. -/
inductive Operand where
  | constant (a : Constant)
  | path (p : Place)
  | group (c : Condition)

end

/-! ### What they stand for -/

def Constant.value : Constant → Value
  | .integer i => .number (.int i)
  | .string s => .str s
  | .bool b => .bool b
  | .null => .null

namespace Place

def head : Place → String
  | .candidate _ => "@"
  | .root head _ => head

/-- The steps behind the first name. -/
def below : Place → List Step
  | .candidate steps => steps
  | .root _ rest => rest

/-- The candidate stands for itself under the name `@`. -/
def steps : Place → List Step
  | .candidate steps => .field "@" :: steps
  | .root head rest => .field head :: rest

/-- The dot path of a place. -/
def text (p : Place) : String :=
  String.ofList ((Step.field p.head).written true ++ DotPath.writtenSteps p.below)

def path (p : Place) : DotPath := ⟨p.text, p.head, p.below⟩

end Place

mutual

/-- The expression that decides a condition. -/
def Condition.model : Condition → Expr
  | .or first more => .or (first.model :: models more)
  | .and first more => .and (first.model :: models more)
  | .not operand => .not operand.model
  | .compare op left right => .compare op left.model right.model
  | .present p => .present (.get p.path)
  | .literal a => .literal a.value

def Operand.model : Operand → Expr
  | .constant a => .literal a.value
  | .path p => .get p.path
  | .group c => c.model

def models : List Condition → List Expr
  | [] => []
  | c :: rest => c.model :: models rest

end

mutual

/-- The filter that a condition is read as. -/
def Condition.filter : Condition → Filter
  | .or first more => .or (first.filter :: filters more)
  | .and first more => .and (first.filter :: filters more)
  | .not operand => .not operand.filter
  | .compare op left right => .compare op left.filter right.filter
  | .present p => .present p.path
  | .literal a => .literal a.value

def Operand.filter : Operand → Filter
  | .constant a => .literal a.value
  | .path p => .path p.path
  | .group c => c.filter

def filters : List Condition → List Filter
  | [] => []
  | c :: rest => c.filter :: filters rest

end

mutual

/-- The places whose values a condition asks for. -/
def Condition.places : Condition → List Place
  | .or first more => first.places ++ allPlaces more
  | .and first more => first.places ++ allPlaces more
  | .not operand => operand.places
  | .compare _ left right => left.places ++ right.places
  | .present p => [p]
  | .literal _ => []

def Operand.places : Operand → List Place
  | .constant _ => []
  | .path p => [p]
  | .group c => c.places

def allPlaces : List Condition → List Place
  | [] => []
  | c :: rest => c.places ++ allPlaces rest

end

/-! ### Conditions that can be written -/

def Constant.IsWritable : Constant → Prop
  | .integer i => Text.IsShort i
  | _ => True

/-- Each index can be written, and each name can be read again. -/
def Place.IsWritable (p : Place) : Prop := ∀ s ∈ p.steps, s.IsShort ∧ s.IsRecoverable

mutual

/-- A connective has two operands at least, and what the condition names can be
written. -/
def Condition.IsWritable : Condition → Prop
  | .or first more => more ≠ [] ∧ first.IsWritable ∧ AreWritable more
  | .and first more => more ≠ [] ∧ first.IsWritable ∧ AreWritable more
  | .not operand => operand.IsWritable
  | .compare _ left right => left.IsWritable ∧ right.IsWritable
  | .present p => p.IsWritable
  | .literal a => a.IsWritable

def Operand.IsWritable : Operand → Prop
  | .constant a => a.IsWritable
  | .path p => p.IsWritable
  | .group c => c.IsWritable

def AreWritable : List Condition → Prop
  | [] => True
  | c :: rest => c.IsWritable ∧ AreWritable rest

end

/-! ## Writing -/

def Constant.lexeme : Constant → Lexeme
  | .integer i => .number (.int i)
  | .string s => .string s
  | .bool true => .name "true"
  | .bool false => .name "false"
  | .null => .name "null"

/-- The text between the brackets of a step. -/
def keyLexeme : Step → Lexeme
  | .field name => .string name
  | .index i => .number (.int i)

def stepLexemes (s : Step) : List Lexeme :=
  [.mark .openBracket, keyLexeme s, .mark .closeBracket]

def Place.lexemes : Place → List Lexeme
  | .candidate steps => .mark .current :: steps.flatMap stepLexemes
  | .root head rest => .mark .root :: (Step.field head :: rest).flatMap stepLexemes

def comparisonMark : Comparison → Mark
  | .eq => .eq
  | .ne => .ne
  | .lt => .lt
  | .lte => .le
  | .gt => .gt
  | .gte => .ge

/-- How tightly the outermost part of a condition binds. -/
def Condition.rank : Condition → Nat
  | .or _ _ => 0
  | .and _ _ => 1
  | _ => 2

def parenthesized (ls : List Lexeme) : List Lexeme :=
  .mark .openParen :: (ls ++ [.mark .closeParen])

/-- The lexemes of an operand, where its connective needs an operand of the
given rank. -/
def enclosed (needed rank : Nat) (ls : List Lexeme) : List Lexeme :=
  if rank < needed then parenthesized ls else ls

mutual

def Condition.lexemes : Condition → List Lexeme
  | .or first more => enclosed 1 first.rank first.lexemes ++ moreLexemes .or 1 more
  | .and first more => enclosed 2 first.rank first.lexemes ++ moreLexemes .and 2 more
  | .not operand => .mark .not :: enclosed 2 operand.rank operand.lexemes
  | .compare op left right => left.lexemes ++ .mark (comparisonMark op) :: right.lexemes
  | .present p => p.lexemes
  | .literal a => [a.lexeme]

def Operand.lexemes : Operand → List Lexeme
  | .constant a => [a.lexeme]
  | .path p => p.lexemes
  | .group c => parenthesized c.lexemes

/-- The operands after the first one, each behind the mark of the connective. -/
def moreLexemes (m : Mark) (needed : Nat) : List Condition → List Lexeme
  | [] => []
  | c :: rest => .mark m :: (enclosed needed c.rank c.lexemes ++ moreLexemes m needed rest)

end

/-- A mark that stands between two operands. -/
def Mark.isBinary (m : Mark) : Bool := (comparison? m).isSome || m = .and || m = .or

/-- How a lexeme is written, with a number of spaces around a mark between
operands. -/
def spell (spaces : Nat) : Lexeme → List Char
  | .mark m =>
    if m.isBinary then
      List.replicate spaces ' ' ++ (m.text.toList ++ List.replicate spaces ' ')
    else m.text.toList
  | .number n => (Lexeme.number n).display.toList
  | .string s => '\'' :: (Text.escape '\'' s.toList ++ ['\''])
  | .name s => s.toList

def Condition.text (spaces : Nat) (c : Condition) : String :=
  String.ofList (c.lexemes.flatMap (spell spaces))

/-- The query that keeps what meets the condition. -/
def Condition.queryText (spaces : Nat) (c : Condition) : String :=
  "$[?(" ++ c.text spaces ++ ")]"

/-! ## Scanning what is written -/

section Scanning

variable {cs : List Char} {ls : List Lexeme} {n : Nat}

/-- What may stand behind an operand. -/
def EndsOperand (cs : List Char) : Prop :=
  Text.Stops (fun c => isNameChar c || (Text.isDigit c || c = '.')) cs

theorem EndsOperand.integer (h : EndsOperand cs) : EndsInteger cs :=
  fun c hc => (Bool.or_eq_false_iff.mp (h c hc)).2

theorem EndsOperand.name (h : EndsOperand cs) : Text.Stops isNameChar cs :=
  fun c hc => (Bool.or_eq_false_iff.mp (h c hc)).1

/-- What may stand behind a mark that begins another one with `=`. -/
def IsClear (cs : List Char) : Prop := Text.Stops (fun c => c = '=') cs

theorem isClear_spaces (n : Nat) (h : IsClear cs) : IsClear (List.replicate n ' ' ++ cs) := by
  cases n with
  | zero => exact h
  | succ n => exact .cons (by decide)

theorem endsOperand_spaces (n : Nat) (h : EndsOperand cs) :
    EndsOperand (List.replicate n ' ' ++ cs) := by
  cases n with
  | zero => exact h
  | succ n => exact .cons (by decide +kernel)

theorem isClear_integer (i : Int) : IsClear ((toString i).toList ++ cs) := by
  have hchars : ∀ c ∈ (toString i).toList, c ≠ '=' := by
    rw [Text.toList_toString]
    intro c hc
    rcases List.mem_append.mp hc with hsign | hdigit
    · rw [Text.eq_of_mem_sign hsign]
      decide
    · rintro rfl
      exact absurd (Text.isDigit_of_mem_toDigits hdigit) (by decide)
  have hne : (toString i).toList ≠ [] := by
    rw [Text.toList_toString]
    exact fun h => Nat.toDigits_ne_nil (List.append_eq_nil_iff.mp h).2
  obtain ⟨c, rest, htext⟩ := List.exists_cons_of_ne_nil hne
  rw [htext] at hchars ⊢
  exact .cons (decide_eq_false (hchars c List.mem_cons_self))

/-- Only a mark that begins another one looks at what follows. -/
theorem mark?_text {m : Mark} (hpoint : m ≠ .point)
    (hclear : m = .lt ∨ m = .gt ∨ m = .not → IsClear cs) :
    mark? (m.text.toList ++ cs) = some m := by
  cases m with
  | point => exact absurd rfl hpoint
  | lt | gt | not =>
      have hclear := hclear (by simp)
      cases cs with
      | nil => rfl
      | cons c rest =>
          have hc : ¬('=' = c) := fun h => by simpa [← h] using hclear c rfl
          simp [mark?, Mark.all, Mark.text, hc]
  | _ => rfl

/-! ### Operands and what joins them -/

/-- The lexemes are scanned from their spelling, where an operand may stand. -/
def Spelt (n : Nat) (ls : List Lexeme) : Prop :=
  ∀ (cs : List Char) (rest : List Lexeme), EndsOperand cs → Scans cs rest →
    Scans (ls.flatMap (spell n) ++ cs) (ls ++ rest) ∧ IsClear (ls.flatMap (spell n) ++ cs)

/-- The lexemes are scanned from their spelling behind an operand. -/
def SpeltBehind (n : Nat) (ls : List Lexeme) : Prop :=
  ∀ (cs : List Char) (rest : List Lexeme), EndsOperand cs → Scans cs rest →
    Scans (ls.flatMap (spell n) ++ cs) (ls ++ rest) ∧ EndsOperand (ls.flatMap (spell n) ++ cs)

theorem SpeltBehind.nil : SpeltBehind n [] := fun _ _ hend hcs => ⟨hcs, hend⟩

theorem SpeltBehind.closeParen : SpeltBehind n [.mark .closeParen] :=
  fun _ _ _ hcs => ⟨hcs.mark (m := .closeParen) rfl, .cons (by decide +kernel)⟩

theorem Spelt.append {ls' : List Lexeme} (h : Spelt n ls) (h' : SpeltBehind n ls') :
    Spelt n (ls ++ ls') := by
  intro cs rest hend hcs
  obtain ⟨hscan, hends⟩ := h' cs rest hend hcs
  rw [List.flatMap_append, List.append_assoc, List.append_assoc]
  exact h _ _ hends hscan

theorem SpeltBehind.cons {m : Mark} {ls' : List Lexeme} (hm : m.isBinary = true)
    (h : Spelt n ls) (h' : SpeltBehind n ls') : SpeltBehind n (.mark m :: (ls ++ ls')) := by
  intro cs rest hend hcs
  obtain ⟨hscan, hclear⟩ := h.append h' cs rest hend hcs
  have hpoint : m ≠ .point := by
    rintro rfl
    cases hm
  have hmark : ∀ cs, EndsOperand (m.text.toList ++ cs) := by
    intro cs
    cases m <;> first | exact .cons (by decide +kernel) | cases hm
  have hspell : spell n (.mark m) =
      List.replicate n ' ' ++ (m.text.toList ++ List.replicate n ' ') := by
    rw [spell, hm]
    rfl
  rw [List.flatMap_cons, hspell, List.append_assoc, List.append_assoc, List.append_assoc]
  refine ⟨.spaces n (.mark ?_ (.spaces n hscan)), endsOperand_spaces n (hmark _)⟩
  exact mark?_text hpoint fun _ => isClear_spaces n hclear

theorem Spelt.paren (h : Spelt n ls) : Spelt n (parenthesized ls) := by
  intro cs rest hend hcs
  obtain ⟨hscan, _⟩ := h.append .closeParen cs rest hend hcs
  exact ⟨hscan.mark (m := .openParen) rfl, .cons (by decide)⟩

theorem Spelt.enclosed (needed rank : Nat) (h : Spelt n ls) :
    Spelt n (enclosed needed rank ls) := by
  rw [Query.enclosed]
  split
  · exact h.paren
  · exact h

theorem Spelt.not (h : Spelt n ls) : Spelt n (.mark .not :: ls) := by
  intro cs rest hend hcs
  obtain ⟨hscan, hclear⟩ := h cs rest hend hcs
  exact ⟨.mark (mark?_text (m := .not) (by decide) fun _ => hclear) hscan, .cons (by decide)⟩

theorem Spelt.constant {a : Constant} (h : a.IsWritable) : Spelt n [a.lexeme] := by
  intro cs rest hend hcs
  rw [List.flatMap_singleton, List.singleton_append]
  cases a with
  | integer i => exact ⟨hcs.integer h hend.integer, isClear_integer i⟩
  | string s =>
      have hscan := hcs.quoted s
      rw [Constant.lexeme, spell, List.cons_append, List.append_assoc]
      exact ⟨hscan, .cons (by decide)⟩
  | bool b =>
      cases b with
      | true => exact ⟨.name (by decide) (by decide) hend.name hcs, .cons (by decide)⟩
      | false => exact ⟨.name (by decide) (by decide) hend.name hcs, .cons (by decide)⟩
  | null => exact ⟨.name (by decide) (by decide) hend.name hcs, .cons (by decide)⟩

theorem Scans.step {s : Step} (h : s.IsShort) (hcs : Scans cs ls) :
    Scans ((stepLexemes s).flatMap (spell n) ++ cs) (stepLexemes s ++ ls) := by
  have hclose : Scans (']' :: cs) (.mark .closeBracket :: ls) :=
    hcs.mark (m := .closeBracket) rfl
  have hkey : Scans (spell n (keyLexeme s) ++ ']' :: cs)
      (keyLexeme s :: .mark .closeBracket :: ls) := by
    cases s with
    | field name =>
        have hscan := hclose.quoted name
        rw [keyLexeme, spell, List.cons_append, List.append_assoc]
        exact hscan
    | index i => exact hclose.integer h (.cons (by decide))
  have htext : (stepLexemes s).flatMap (spell n) ++ cs =
      '[' :: (spell n (keyLexeme s) ++ ']' :: cs) := by
    show '[' :: (spell n (keyLexeme s) ++ (']' :: [])) ++ cs = _
    rw [List.cons_append, List.append_assoc]
    rfl
  rw [htext]
  exact hkey.mark (m := .openBracket) rfl

theorem Scans.steps {steps : List Step} (h : ∀ s ∈ steps, s.IsShort) (hcs : Scans cs ls) :
    Scans ((steps.flatMap stepLexemes).flatMap (spell n) ++ cs)
      (steps.flatMap stepLexemes ++ ls) := by
  induction steps with
  | nil => exact hcs
  | cons s rest ih =>
      obtain ⟨hs, hrest⟩ := List.forall_mem_cons.mp h
      rw [List.flatMap_cons, List.flatMap_append, List.append_assoc, List.append_assoc]
      exact (ih hrest).step hs

theorem Spelt.place {p : Place} (h : p.IsWritable) : Spelt n p.lexemes := by
  intro cs rest hend hcs
  cases p with
  | candidate steps =>
      have hsteps : ∀ s ∈ steps, s.IsShort :=
        fun s hs => (h s (List.mem_cons_of_mem _ hs)).1
      exact ⟨(hcs.steps hsteps).mark (m := .current) rfl, .cons (by decide)⟩
  | root head more =>
      have hsteps : ∀ s ∈ Step.field head :: more, s.IsShort := fun s hs => (h s hs).1
      exact ⟨(hcs.steps hsteps).mark (m := .root) rfl, .cons (by decide)⟩

mutual

theorem Condition.spelt (n : Nat) : ∀ c : Condition, c.IsWritable → Spelt n c.lexemes
  | .or first more, h =>
      ((first.spelt n h.2.1).enclosed 1 first.rank).append (spelt_more n rfl 1 more h.2.2)
  | .and first more, h =>
      ((first.spelt n h.2.1).enclosed 2 first.rank).append (spelt_more n rfl 2 more h.2.2)
  | .not operand, h => ((operand.spelt n h).enclosed 2 operand.rank).not
  | .compare op left right, h => by
      have hright := right.spelt n h.2
      have hmark : (comparisonMark op).isBinary = true := by cases op <;> rfl
      have htail := SpeltBehind.cons hmark hright .nil
      rw [List.append_nil] at htail
      exact (left.spelt n h.1).append htail
  | .present _, h => .place h
  | .literal _, h => .constant h

theorem Operand.spelt (n : Nat) : ∀ o : Operand, o.IsWritable → Spelt n o.lexemes
  | .constant _, h => .constant h
  | .path _, h => .place h
  | .group c, h => (c.spelt n h).paren

theorem spelt_more (n : Nat) {m : Mark} (hm : m.isBinary = true) (needed : Nat) :
    ∀ cs : List Condition, AreWritable cs → SpeltBehind n (moreLexemes m needed cs)
  | [], _ => .nil
  | c :: rest, h =>
      .cons hm ((c.spelt n h.1).enclosed needed c.rank) (spelt_more n hm needed rest h.2)

end

end Scanning

end Conduit.Query
