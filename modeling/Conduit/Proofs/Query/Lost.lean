import Conduit.Proofs.Query.Path
import Conduit.Proofs.Query.Segment

/-!
# Paths that are lost in a filter

A path in a filter is written as a dot path, and the dot path is read. A name that has to
stand in quotes and holds a line end is written there, but not read, and whatever quotes it
holds itself, it is not read as something else either: the path is lost.
-/

namespace Conduit

namespace Query

/-! ## Steps that are written and read -/

/-- The piece that a step is written as. -/
def pieceOf : Step → Piece
  | .field name =>
    if Step.isPlainName name then .name name.toList
    else .key .single (Text.escape '\'' name.toList)
  | .index i => .index (decide (i < 0)) (Nat.toDigits 10 i.natAbs)

theorem text_pieceOf (s : Step) : (pieceOf s).text = s.written false := by
  cases s with
  | field name =>
      rw [pieceOf, Step.written]
      split <;> rfl
  | index i => rw [pieceOf, Piece.text, Step.written, Text.toList_toString, List.append_assoc]

theorem inPath_pieceOf (s : Step) : (pieceOf s).inPath = s := by
  cases s with
  | field name =>
      rw [pieceOf]
      split
      · rw [Piece.inPath, Piece.inQuery, String.ofList_toList]
        simp
      · rw [Piece.inPath, Piece.inQuery, Text.unescape_escape (by decide), String.ofList_toList]
        simp
  | index i => exact congrArg Step.index (Text.signed_digitsValue i)

theorem isValid_pieceOf {s : Step} (h : s.IsShort) : (pieceOf s).IsValid := by
  cases s with
  | field name =>
      rw [pieceOf]
      split
      · next hplain =>
          obtain ⟨hne, -⟩ := DotPath.isNameChar_of_isPlainName hplain
          simp only [Step.isPlainName, Bool.and_eq_true, List.all_eq_true] at hplain
          exact ⟨hne, hplain.2⟩
      · exact fun rest => stringBody?_escape (by decide) (by decide) name.toList
  | index i =>
      exact ⟨Nat.toDigits_ne_nil, fun _ hc => Text.isDigit_of_mem_toDigits hc,
        (Text.isShort_iff i).mp h⟩

end Query

namespace DotPath

open Query (pieceOf text_pieceOf inPath_pieceOf isValid_pieceOf)

variable {text : String} {head : String} {rest : List Step}

theorem writtenSteps_eq (steps : List Step) :
    writtenSteps steps = (steps.map pieceOf).flatMap Query.Piece.text := by
  rw [List.flatMap_map, writtenSteps]
  exact congrArg (List.flatMap · steps) (funext fun s => (text_pieceOf s).symm)

/-- A path that is read from what steps are written as has these steps. -/
theorem steps_of_parse_written {p : DotPath} (h : ∀ s ∈ rest, s.IsShort)
    (htext : text.toList = (Step.field head).written true ++ writtenSteps rest)
    (hp : parse text = .ok p) : p.steps = .field head :: rest := by
  have hvalid : ∀ steps : List Step, (∀ s ∈ steps, s.IsShort) →
      ∀ x ∈ steps.map pieceOf, x.IsValid := fun steps hsteps =>
    List.forall_mem_map.mpr fun s hs => isValid_pieceOf (hsteps s hs)
  have hback : ∀ steps : List Step, (steps.map pieceOf).map Query.Piece.inPath = steps := by
    intro steps
    rw [List.map_map]
    exact (List.map_congr_left fun s _ => inPath_pieceOf s).trans (List.map_id steps)
  by_cases hplain : Step.isPlainName head = true
  · obtain ⟨hne, hchars⟩ := isNameChar_of_isPlainName hplain
    rw [Step.written, if_pos hplain, if_pos rfl] at htext
    rw [parse_name htext hne hchars (stops_writtenSteps rest)] at hp
    obtain ⟨steps, hsteps, heq⟩ := ok_of_bind hp
    cases heq
    rw [writtenSteps_eq] at hsteps
    rw [DotPath.steps, Query.readSteps_pieces (hvalid rest h) hsteps, hback, String.ofList_toList]
  · have hwritten : (Step.field head).written true = (Step.field head).written false := by
      rw [Step.written, Step.written, if_neg hplain, if_neg hplain]
    have hall : ∀ s ∈ Step.field head :: rest, s.IsShort := List.forall_mem_cons.mpr ⟨trivial, h⟩
    have hpieces : text.toList =
        ((Step.field head :: rest).map pieceOf).flatMap Query.Piece.text := by
      rw [htext, hwritten, ← writtenSteps_eq]
      rfl
    rw [Query.parse_pieces (hvalid _ hall) hpieces hp, hback]

/-- What steps are written as is read at all exactly if each of them comes back. -/
theorem exists_parse_written_iff (h : ∀ s ∈ rest, s.IsShort)
    (htext : text.toList = (Step.field head).written true ++ writtenSteps rest) :
    (∃ p, parse text = .ok p) ↔ ∀ s ∈ Step.field head :: rest, s.IsRecoverable := by
  rw [← parse_written_iff h htext]
  refine ⟨fun ⟨p, hp⟩ => ?_, fun hp => ⟨_, hp⟩⟩
  obtain ⟨hname, hrest⟩ := List.cons.inj (steps_of_parse_written h htext hp)
  obtain ⟨ptext, phead, prest⟩ := p
  cases hname
  cases hrest
  cases text_of_parse hp
  exact hp

end DotPath

namespace Query

variable {ls path after before : List Lexeme} {toks : List Token} (source : String)

theorem filterPath_error_iff {head : String} {rest : List Step} (h : ∀ s ∈ rest, s.IsShort) :
    (∃ e, filterPath (.field head :: rest) = .error (.filterPath e)) ↔
      ∃ s ∈ Step.field head :: rest, ¬s.IsRecoverable := by
  have hparse : (∃ p, DotPath.parse (.ofList ((Step.field head).written true ++
      DotPath.writtenSteps rest)) = .ok p) ↔ ∀ s ∈ Step.field head :: rest, s.IsRecoverable :=
    DotPath.exists_parse_written_iff h String.toList_ofList
  rw [filterPath, DotPath.format_eq h, ← not_iff_not]
  simp only [not_exists, not_and, not_not]
  rw [← hparse]
  cases DotPath.parse (.ofList ((Step.field head).written true ++ DotPath.writtenSteps rest)) with
  | ok p => simp
  | error e => simp

/-! ## The lexemes of a path -/

/-- Every integer among the lexemes can be written again. -/
def AreShort (ls : List Lexeme) : Prop := ∀ i : Int, .number (.int i) ∈ ls → Text.IsShort i

theorem AreShort.tail {l : Lexeme} (h : AreShort (l :: ls)) : AreShort ls :=
  fun i hi => h i (List.mem_cons_of_mem _ hi)

theorem areShort_append {front back : List Lexeme} :
    AreShort (front ++ back) ↔ AreShort front ∧ AreShort back := by
  simp only [AreShort, List.mem_append, or_imp, forall_and]

/-- The mark that a path in a filter begins with. -/
def pathMark (atCandidate : Bool) : Mark := if atCandidate then .current else .root

/-- The steps of a path in a filter, from its mark on. -/
def stepsFrom (atCandidate : Bool) (steps : List Step) : List Step :=
  if atCandidate then .field "@" :: steps else steps

/-- The name of the candidate comes back, so what is lost is in the steps behind it. -/
theorem stepsFrom_cons {atCandidate : Bool} {steps rest : List Step} {head : String}
    (h : stepsFrom atCandidate steps = .field head :: rest) :
    (∀ s ∈ rest, s ∈ steps) ∧
      ((∃ s ∈ Step.field head :: rest, ¬s.IsRecoverable) ↔ ∃ s ∈ steps, ¬s.IsRecoverable) := by
  cases atCandidate with
  | true =>
      cases h
      have hback : (Step.field "@").IsRecoverable := .inl (by decide +kernel)
      refine ⟨fun _ hs => hs, ?_⟩
      simp only [List.mem_cons, or_and_right, exists_or, exists_eq_left, hback, not_true_eq_false,
        false_or]
  | false =>
      have hsteps : steps = .field head :: rest := h
      rw [hsteps]
      exact ⟨fun _ hs => List.mem_cons_of_mem _ hs, Iff.rfl⟩

/-- The lexemes of a path in a filter that is written but not read again: it begins with a
name, and some name in it has to stand in quotes and holds a line end. -/
def IsLost (path : List Lexeme) : Prop :=
  ∃ (atCandidate : Bool) (ls : List Lexeme) (steps : List Step),
    path = .mark (pathMark atCandidate) :: ls ∧ ReadsAs pathSteps ls steps ∧
    (∃ head rest, stepsFrom atCandidate steps = .field head :: rest) ∧
    (∀ s ∈ steps, s.IsShort) ∧ ∃ s ∈ steps, ¬s.IsRecoverable

theorem IsStep.lexemes {rest : List Token} {s : Step} (h : IsStep rest toks s) :
    ∃ ls, toks.map Token.lexeme = ls ++ rest.map Token.lexeme ∧ .mark .current ∉ ls ∧
      (AreShort ls → s.IsShort) := by
  cases h with
  | member _ _ hmember =>
      cases hmember with
      | name _ _ s => exact ⟨[.mark .point, .name s], rfl, by simp, fun _ => trivial⟩
      | numeral _ _ n =>
          exact ⟨[.mark .point, .number (.int n)], rfl, by simp, fun _ => trivial⟩
  | key _ _ _ _ hkey =>
      cases hkey with
      | name _ _ s => exact ⟨stepLexemes (.field s), rfl, by simp [stepLexemes, keyLexeme],
          fun _ => trivial⟩
      | index _ _ i =>
          refine ⟨stepLexemes (.index i), rfl, by simp [stepLexemes, keyLexeme], fun h => h i ?_⟩
          simp [stepLexemes, keyLexeme]

theorem ends_of_pathStep (h : pathStep source toks = .ok none) :
    Ends 3 (toks.map Token.lexeme) := by
  unfold pathStep at h
  split at h
  · obtain ⟨m, -, h⟩ := ok_of_bind h
    split at h
    · cases h
    · next rest _ =>
        cases hrest : m.rest <;> rw [hrest] at h <;> cases h
  · obtain ⟨_, -, h⟩ := ok_of_bind h
    obtain ⟨_, -, h⟩ := ok_of_bind h
    cases h
  · next hpoint hopen =>
      intro l hl
      cases toks with
      | nil => cases hl
      | cons t rest =>
          cases hl
          obtain ⟨l, offset, size⟩ := t
          cases l with
          | mark m =>
              by_cases hm : m = .point
              · exact absurd (by rw [hm]) (hpoint offset size rest)
              · by_cases hm' : m = .openBracket
                · exact absurd (by rw [hm']) (hopen offset size rest)
                · simp [goesOn, hm, hm']
          | _ => rfl

/-- The steps of a path are read as far as they go, and none of their lexemes begins
another path. -/
theorem pathSteps_lexemes (toks : List Token) :
    Yields (fun p => Ends 3 (p.2.1.map Token.lexeme) ∧
        ∃ ls, toks.map Token.lexeme = ls ++ p.2.1.map Token.lexeme ∧ .mark .current ∉ ls ∧
          (AreShort ls → ∀ s ∈ p.1, s.IsShort))
      (pathSteps source toks) := by
  fun_induction pathSteps source toks with
  | case1 toks ih =>
      intro p hp
      obtain ⟨step, hstep, hp⟩ := ok_of_bind hp
      cases step with
      | none =>
          cases hp
          refine ⟨ends_of_pathStep source hstep, [], rfl, by simp, fun _ => List.forall_mem_nil _⟩
      | some s =>
          obtain ⟨more, hmore, hp⟩ := ok_of_bind hp
          cases hp
          obtain ⟨ls, hls, hcurrent, hshort⟩ :=
            (pathStep_tokens source toks (some s) hstep s rfl).lexemes
          obtain ⟨hend, ls', hls', hcurrent', hshort'⟩ := ih s more hmore
          refine ⟨hend, ls ++ ls', ?_, by simp [hcurrent, hcurrent'], fun h => ?_⟩
          · rw [hls, hls', List.append_assoc]
          · obtain ⟨hfirst, hrest⟩ := areShort_append.mp h
            exact List.forall_mem_cons.mpr ⟨hshort hfirst, hshort' hrest⟩

end Query

end Conduit
