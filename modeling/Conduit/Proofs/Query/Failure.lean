import Conduit.Proofs.Query.Stop

/-!
# What is not read as a query

Most texts that are no queries are rejected for what stands in them. Two are not: a text
that the scanner finds an integer of too many digits in, whatever stands behind it, and a text
that is read as far as a lost path. These are the only two.
-/

namespace Conduit.Query

variable {cs rest : List Char} {ls : List Lexeme} {toks : List Token} (source : String)

/-! ## Integers that are too long -/

/-- The scanner gets from a text to the rest of it, token by token. -/
inductive ScansTo : List Char → List Char → Prop where
  | refl (cs : List Char) : ScansTo cs cs
  | blank {c : Char} {cs rest : List Char} (hc : Text.isBlank c = true) (h : ScansTo cs rest) :
    ScansTo (c :: cs) rest
  | token {c : Char} {cs rest : List Char} {l : Lexeme} {size : Nat}
      (hc : Text.isBlank c = false) (hl : lexeme? (c :: cs) = some (.ok l, size))
      (h : ScansTo ((c :: cs).drop size) rest) : ScansTo (c :: cs) rest

/-- A text that begins with a number begins with a minus sign or a digit. -/
theorem first_of_wholeDigits (h : wholeDigits cs ≠ []) :
    ∃ c rest, cs = c :: rest ∧ (c = '-' ∨ Text.isDigit c = true) := by
  cases cs with
  | nil => exact absurd rfl h
  | cons c rest =>
      refine ⟨c, rest, rfl, ?_⟩
      by_cases hc : c = '-'
      · exact .inl hc
      · refine .inr ?_
        rw [wholeDigits, unsigned_eq_self hc, List.takeWhile_cons] at h
        split at h
        · next hdigit => exact hdigit
        · exact absurd rfl h

theorem number?_error_iff {l : Limit} : (∃ size, number? cs = some (.error l, size)) ↔
    Limit.numeralDigits < (wholeDigits cs).length ∧ pointDigits cs = [] ∧
      l = .longNumeral (wholeDigits cs).length := by
  rw [number?_eq, numeral]
  constructor
  · rintro ⟨size, h⟩
    split at h
    · cases h
    · split at h
      · next hpoint =>
          split at h
          · next hlong =>
              cases h
              exact ⟨hlong, List.isEmpty_iff.mp hpoint, rfl⟩
          · cases h
      · cases h
  · rintro ⟨hlong, hpoint, rfl⟩
    have hwhole : (wholeDigits cs).isEmpty = false := by
      rw [List.isEmpty_eq_false_iff]
      exact List.ne_nil_of_length_pos (Nat.zero_lt_of_lt hlong)
    rw [hwhole, hpoint, if_pos hlong]
    exact ⟨_, rfl⟩

theorem lexeme?_error_iff {l : Limit} : (∃ size, lexeme? cs = some (.error l, size)) ↔
    Limit.numeralDigits < (wholeDigits cs).length ∧ pointDigits cs = [] ∧
      l = .longNumeral (wholeDigits cs).length := by
  rw [← number?_error_iff]
  constructor
  · rintro ⟨size, h⟩
    unfold lexeme? at h
    split at h
    · cases h
    · split at h
      · next n w hn =>
          cases n with
          | error e =>
              cases h
              exact ⟨_, hn⟩
          | ok n => cases h
      · obtain ⟨_, _, heq⟩ := Option.map_eq_some_iff.mp h
        cases heq
  · rintro ⟨size, h⟩
    obtain ⟨hlong, -, -⟩ := number?_error_iff.mp ⟨size, h⟩
    obtain ⟨c, rest, rfl, hc⟩ :=
      first_of_wholeDigits (List.ne_nil_of_length_pos (Nat.zero_lt_of_lt hlong))
    have hmark : mark? (c :: rest) = none := by
      rcases hc with rfl | hc
      · exact mark?_eq_none (by decide)
      · refine mark?_eq_none fun hmem => ?_
        have hnone : "$@.[]*,:?()=!<>&|".toList.any Text.isDigit = false := by decide
        exact Bool.false_ne_true (hnone.symm.trans (List.any_eq_true.mpr ⟨c, hmem, hc⟩))
    refine ⟨size, ?_⟩
    rw [lexeme?, hmark]
    dsimp only
    rw [h]
    rfl

theorem scansTo_of_scanFrom {fuel offset : Nat} {l : Limit} (hfuel : cs.length < fuel)
    (h : scanFrom source fuel cs offset = .error (.limit l)) :
    ∃ rest, ScansTo cs rest ∧ ∃ size, lexeme? rest = some (.error l, size) := by
  induction fuel generalizing cs offset with
  | zero => cases hfuel
  | succ fuel ih =>
      cases cs with
      | nil => cases h
      | cons c more =>
          rw [scanFrom] at h
          split at h
          · next hc =>
              obtain ⟨rest, hrest, hlexeme⟩ := ih (Nat.lt_of_succ_lt_succ hfuel) h
              exact ⟨rest, .blank hc hrest, hlexeme⟩
          · next hc =>
              split at h
              · cases h
              · next l' size hl =>
                  cases h
                  exact ⟨_, .refl _, size, hl⟩
              · next lexeme size hl =>
                  have hdrop := length_drop_lt hfuel (size_ne_zero hl)
                  cases hscan : scanFrom source fuel ((c :: more).drop size) (offset + size) with
                  | ok toks =>
                      rw [hscan] at h
                      cases h
                  | error e =>
                      rw [hscan] at h
                      cases h
                      obtain ⟨rest, hrest, hlexeme⟩ := ih hdrop hscan
                      exact ⟨rest, .token (by simpa using hc) hl hrest, hlexeme⟩

theorem overruns_of_lexeme? {l : Limit} {size : Nat} (h : lexeme? cs = some (.error l, size)) :
    Overruns cs l := by
  obtain ⟨hlong, -, -⟩ := lexeme?_error_iff.mp ⟨size, h⟩
  obtain ⟨c, rest, rfl, hc⟩ :=
    first_of_wholeDigits (List.ne_nil_of_length_pos (Nat.zero_lt_of_lt hlong))
  have hblank : Text.isBlank c = false := by
    rcases hc with rfl | hc
    · decide
    · exact Text.isBlank_of_isDigit hc
  exact .first hblank h

theorem ScansTo.overruns {l : Limit} (h : ScansTo cs rest) (hrest : Overruns rest l) :
    Overruns cs l := by
  induction h with
  | refl => exact hrest
  | blank hc _ ih => exact .blank hc (ih hrest)
  | token hc hl _ ih => exact .cons _ hc hl (size_ne_zero hl) (ih hrest)

/-- The scanner gets to an integer of `n` digits, which are too many. -/
def MeetsLongInteger (text : String) (n : Nat) : Prop :=
  ∃ rest, ScansTo text.toList rest ∧ (wholeDigits rest).length = n ∧ pointDigits rest = [] ∧
    Limit.numeralDigits < n

/-- A scan stops at a limit exactly if it gets to an integer that is too long. -/
theorem scan_limit_iff {text : String} {l : Limit} : scan text = .error (.limit l) ↔
    ∃ n, MeetsLongInteger text n ∧ l = .longNumeral n := by
  have hfuel : text.toList.length < text.length + 1 := by
    rw [String.length_toList]
    exact Nat.lt_succ_self _
  constructor
  · intro h
    obtain ⟨rest, hrest, hlexeme⟩ := scansTo_of_scanFrom text hfuel h
    obtain ⟨hlong, hpoint, rfl⟩ := lexeme?_error_iff.mp hlexeme
    exact ⟨_, ⟨rest, hrest, rfl, hpoint, hlong⟩, rfl⟩
  · rintro ⟨_, ⟨rest, hrest, rfl, hpoint, hlong⟩, rfl⟩
    obtain ⟨size, hlexeme⟩ := lexeme?_error_iff.mpr ⟨hlong, hpoint, rfl⟩
    exact hrest.overruns (overruns_of_lexeme? hlexeme) text _ 0 hfuel

/-- The scanner knows nothing of paths. -/
theorem scanFrom_ne_filterPath {fuel offset : Nat} {e : PathError} :
    scanFrom source fuel cs offset ≠ .error (.filterPath e) := by
  induction fuel generalizing cs offset with
  | zero => nofun
  | succ fuel ih =>
      intro h
      cases cs with
      | nil => cases h
      | cons c rest =>
          rw [scanFrom] at h
          split at h
          · exact ih h
          · split at h
            · cases h
            · cases h
            · next l size _ =>
                cases hscan : scanFrom source fuel ((c :: rest).drop size) (offset + size) with
                | ok toks =>
                    rw [hscan] at h
                    cases h
                | error e' =>
                    rw [hscan] at h
                    cases h
                    exact ih hscan

/-- The integers of tokens that were scanned are short. -/
theorem Spells.areShort (h : Spells cs ls) : AreShort ls := by
  induction h with
  | nil => exact fun _ hi => absurd hi List.not_mem_nil
  | blank _ _ ih => exact ih
  | token _ hl _ ih =>
      intro i hi
      rcases List.mem_cons.mp hi with rfl | hi
      · obtain ⟨negative, digits, _, -, -, rfl, -, -, hlength⟩ := text_of_integer hl
        exact Text.isShort_digitsValue hlength negative
      · exact ih i hi

theorem scan_areShort {text : String} (h : scan text = .ok toks) :
    AreShort (toks.map Token.lexeme) := by
  have hspells : Spells text.toList (toks.map Token.lexeme) := spells_of_scan (by rw [h]; rfl)
  exact hspells.areShort

/-! ## Texts -/

theorem scan_blank {text : String} (h : text.toList.all Text.isBlank = true) :
    scan text = .ok [] := by
  have hspells : ∀ {cs : List Char}, cs.all Text.isBlank = true → Spells cs [] := by
    intro cs hcs
    induction cs with
    | nil => exact .nil
    | cons c rest ih =>
        rw [List.all_cons, Bool.and_eq_true] at hcs
        exact .blank hcs.1 (ih hcs.2)
  obtain ⟨toks, htoks, hnil⟩ := (hspells h).scans text (text.length + 1) 0 <| by
    rw [String.length_toList]
    exact Nat.lt_succ_self _
  rw [List.map_eq_nil_iff.mp hnil] at htoks
  exact htoks

/-- Lexemes among which a path is lost. -/
theorem not_losesIn_nil {Good : List Lexeme → Prop} : ¬LosesIn Good [] := by
  rintro ⟨before, path, after, more, hls, hlost, -⟩
  obtain ⟨m, ls, rfl, -⟩ := hlost.first
  cases before <;> cases hls

/-- A path is lost in the text where its tokens begin a query. -/
def LosesPath (text : String) : Prop :=
  ∃ toks, scan text = .ok toks ∧ LosesIn IsQuery (toks.map Token.lexeme)

theorem parse_limit_iff {text : String} {l : Limit} : parse text = .error (.limit l) ↔
    ∃ n, MeetsLongInteger text n ∧ l = .longNumeral n := by
  rw [← scan_limit_iff, parse]
  split
  · next hblank =>
      rw [scan_blank hblank]
      simp
  · cases hscan : scan text with
    | error e => simp [bind, Except.bind]
    | ok toks =>
        refine iff_of_false (fun h => ?_) (by simp)
        rcases start_fails text (scan_areShort hscan) _ h with hsyntax | ⟨⟨_, hpath⟩, -⟩
        · exact hsyntax
        · cases hpath

theorem parse_filterPath_iff {text : String} :
    (∃ e, parse text = .error (.filterPath e)) ↔ LosesPath text := by
  rw [parse, LosesPath]
  split
  · next hblank =>
      refine iff_of_false (by simp) ?_
      rintro ⟨toks, htoks, hlost⟩
      rw [scan_blank hblank] at htoks
      cases htoks
      exact not_losesIn_nil hlost
  · cases hscan : scan text with
    | error e =>
        refine iff_of_false ?_ (by simp)
        rintro ⟨pe, hpe⟩
        cases hpe
        exact scanFrom_ne_filterPath text hscan
    | ok toks =>
        have hstart := start_filterPath_iff text (scan_areShort hscan)
        refine hstart.trans ⟨fun h => ⟨toks, rfl, h⟩, ?_⟩
        rintro ⟨_, ⟨⟩, h⟩
        exact h

/-- A text is read as a query, or it is rejected for what stands in it, with two exceptions:
the scanner gets to an integer that is too long, or a path is lost where the tokens begin a
query. It fails then, with the number of digits, and with the fault of the path. -/
theorem parse_rejects (text : String) :
    (((∃ ss, parse text = .ok ss) ∨ ∃ e, parse text = .error e ∧ e.IsSyntax) ↔
      (¬∃ n, MeetsLongInteger text n) ∧ ¬LosesPath text) ∧
    (∀ l, parse text = .error (.limit l) ↔ ∃ n, MeetsLongInteger text n ∧ l = .longNumeral n) ∧
    ((∃ e, parse text = .error (.filterPath e)) ↔ LosesPath text) := by
  refine ⟨?_, fun l => parse_limit_iff, parse_filterPath_iff⟩
  have hlong : (∃ n, MeetsLongInteger text n) ↔ ∃ l, parse text = .error (.limit l) := by
    constructor
    · rintro ⟨n, hn⟩
      exact ⟨_, parse_limit_iff.mpr ⟨n, hn, rfl⟩⟩
    · rintro ⟨l, hl⟩
      obtain ⟨n, hn, -⟩ := parse_limit_iff.mp hl
      exact ⟨n, hn⟩
  rw [hlong, ← parse_filterPath_iff]
  cases parse text with
  | ok ss => simp
  | error e => cases e <;> simp [Error.IsSyntax]

/-- A condition on a member whose name holds a quote and a line end. -/
def lineEndQuery : String := "$[?(@['it\\'s\n'] == 1)]"

theorem scan_lineEndQuery : scan lineEndQuery = .ok
    [⟨.mark .root, 0, 1⟩, ⟨.mark .openBracket, 1, 1⟩, ⟨.mark .question, 2, 1⟩,
      ⟨.mark .openParen, 3, 1⟩, ⟨.mark .current, 4, 1⟩, ⟨.mark .openBracket, 5, 1⟩,
      ⟨.string "it's\n", 6, 8⟩, ⟨.mark .closeBracket, 14, 1⟩, ⟨.mark .eq, 16, 2⟩,
      ⟨.number (.int 1), 19, 1⟩, ⟨.mark .closeParen, 20, 1⟩, ⟨.mark .closeBracket, 21, 1⟩] := by
  decide +kernel

theorem filterPath_lineEnd : filterPath [.field "@", .field "it's\n"] =
    .error (.filterPath (.malformedBracket "@['it\\'s\n']" 1)) := by
  have hformat : DotPath.format [.field "@", .field "it's\n"] = .ok "@['it\\'s\n']" := by rfl
  have hparse : DotPath.parse "@['it\\'s\n']" =
      .error (.malformedBracket "@['it\\'s\n']" 1) := by decide +kernel
  rw [filterPath, hformat]
  dsimp only
  rw [hparse]

/-- The scanner takes the name as it stands, and the dot path that is made of it is not
read. -/
theorem parse_lineEndQuery_lost :
    parse lineEndQuery = .error (.filterPath (.malformedBracket "@['it\\'s\n']" 1)) ∧
      ¬((∃ ss, parse lineEndQuery = .ok ss) ∨
        ∃ e, parse lineEndQuery = .error e ∧ e.IsSyntax) := by
  have herror : parse lineEndQuery =
      .error (.filterPath (.malformedBracket "@['it\\'s\n']" 1)) := by
    have hblank : lineEndQuery.toList.all Text.isBlank = false := by decide +kernel
    rw [parse, hblank, scan_lineEndQuery]
    simp [start, segments, segment, bracket, contents, expect, orFilter, andFilter, unary,
      comparison, operand, plainOperand, relativePath, pathSteps, pathStep, pathBracket,
      filterPath_lineEnd, bind, Except.bind]
  refine ⟨herror, ?_⟩
  rw [herror]
  rintro (⟨ss, hss⟩ | ⟨e, he, hsyntax⟩)
  · cases hss
  · cases he
    exact hsyntax

end Conduit.Query
