import Conduit.Proofs.Query.Lost

/-!
# How a query is rejected

A rule of the grammar rejects a token that it does not go on with: the text is at fault. If
its integers are short, there is one other reason, a lost path in a filter, and then the
lexemes before the path go on to a text of that rule with another path in its place. What
one rule adds to those before it is the same for all: `LosesIn.within`.
-/

namespace Conduit.Query

variable {ls : List Lexeme} {toks : List Token} (source : String)

/-! ## How rules fail -/

/-- The text itself is at fault, and not a number in it or a path made from it. -/
def Error.IsSyntax : Error → Prop
  | .empty => True
  | .badCharacter _ _ _ => True
  | .unexpected _ _ _ _ => True
  | .filterPath _ => False
  | .limit _ => False

/-- A rule fails at a token that it does not go on with, or at a lost path. -/
def FailsAs {α : Type} (Lost : Prop) (r : Except Error α) : Prop :=
  ∀ e, r = .error e → e.IsSyntax ∨ (∃ pe, e = .filterPath pe) ∧ Lost

namespace FailsAs

variable {α β : Type} {P Q : Prop}

theorem ok {a : α} : FailsAs P (.ok a : Except Error α) := by
  intro e he
  cases he

theorem fail {source message : String} {toks : List Token} :
    FailsAs P (Query.fail source message toks : Except Error α) := by
  intro e he
  cases toks with
  | nil =>
      cases he
      exact .inl trivial
  | cons t rest =>
      cases he
      exact .inl trivial

theorem bind {x : Except Error α} {f : α → Except Error β} (hx : FailsAs P x)
    (hf : ∀ a, x = .ok a → FailsAs P (f a)) : FailsAs P (x >>= f) := by
  cases x with
  | error e =>
      intro e' he
      cases he
      exact hx e rfl
  | ok a => exact hf a rfl

theorem imp {x : Except Error α} (hx : FailsAs P x) (h : P → Q) : FailsAs Q x :=
  fun e he => (hx e he).imp_right (And.imp_right h)

end FailsAs

section Syntax

variable {P : Type} {Q : Prop}

theorem expect_fails (m : Mark) (what : String) (toks : List Token) :
    FailsAs Q (expect source m what toks) := by
  unfold expect
  split
  · split
    · exact .ok
    · exact .fail
  · exact .fail

theorem member_fails (toks : List Token) : FailsAs Q (member (P := P) source toks) := by
  unfold member
  split
  · exact .ok
  · exact .ok
  · exact .ok
  · exact .fail

theorem integer?_fails (toks : List Token) : FailsAs Q (integer? source toks) := by
  unfold integer?
  split
  · exact .ok
  · exact .fail
  · exact .ok

theorem sliceStep_fails (toks : List Token) : FailsAs Q (sliceStep source toks) := by
  unfold sliceStep
  split
  · refine .bind (integer?_fails source _) fun p _ => ?_
    dsimp only
    split
    · exact .fail
    · exact .ok
  · exact .ok

theorem sliceFrom_fails (start : Option Int) (toks : List Token) :
    FailsAs Q (sliceFrom source start toks) := by
  unfold sliceFrom
  split
  · exact .bind (integer?_fails source _) fun stop _ =>
      .bind (sliceStep_fails source _) fun step _ => .ok
  · exact .fail

theorem selector_fails (toks : List Token) : FailsAs Q (selector (P := P) source toks) := by
  unfold selector
  split
  · exact .ok
  · exact .bind (sliceFrom_fails source _ _) fun p _ => .ok
  · exact .ok
  · exact .fail
  · exact .bind (sliceFrom_fails source _ _) fun p _ => .ok

theorem moreSelectors_fails (toks : List Token) :
    FailsAs Q (moreSelectors (P := P) source toks) := by
  fun_induction moreSelectors (P := P) source toks with
  | case1 offset size rest ih =>
      exact .bind (selector_fails source rest) fun first _ => .bind (ih first) fun more _ => .ok
  | case2 other hother => exact .ok

theorem selectors_fail (toks : List Token) : FailsAs Q (selectors (P := P) source toks) :=
  .bind (selector_fails source toks) fun _ _ => .bind (moreSelectors_fails source _) fun _ _ => .ok

theorem pathStep_fails (toks : List Token) : FailsAs Q (pathStep source toks) := by
  unfold pathStep
  split
  · refine .bind (member_fails source _) fun m _ => ?_
    split
    · exact .ok
    · exact .fail
  · refine .bind ?_ fun key _ => .bind (expect_fails source _ _ _) fun close _ => .ok
    unfold pathBracket
    split
    · exact .ok
    · exact .ok
    · exact .fail
    · exact .fail
  · exact .ok

theorem pathSteps_fails (toks : List Token) : FailsAs Q (pathSteps source toks) := by
  fun_induction pathSteps source toks with
  | case1 toks ih =>
      refine .bind (pathStep_fails source toks) fun step _ => ?_
      cases step with
      | none => exact .ok
      | some s => exact .bind (ih s) fun more _ => .ok

end Syntax

theorem filterPath_fails {head : String} {rest : List Step} (h : ∀ s ∈ rest, s.IsShort) :
    FailsAs (∃ s ∈ Step.field head :: rest, ¬s.IsRecoverable)
      (filterPath (.field head :: rest)) := by
  intro e he
  have hpath : ∃ pe, e = .filterPath pe := by
    rw [filterPath, DotPath.format_eq h] at he
    dsimp only at he
    split at he
    · cases he
    · next pe _ =>
        cases he
        exact ⟨pe, rfl⟩
  obtain ⟨pe, rfl⟩ := hpath
  exact .inr ⟨⟨pe, rfl⟩, (filterPath_error_iff h).mp ⟨pe, he⟩⟩

theorem relativePath_fails (atCandidate : Bool) (hshort : AreShort (toks.map Token.lexeme)) :
    FailsAs (∃ ls after, toks.map Token.lexeme = ls ++ after ∧ Ends 3 after ∧
        IsLost (.mark (pathMark atCandidate) :: ls))
      (relativePath source atCandidate toks) := by
  rw [relativePath]
  refine .bind (pathSteps_fails source toks) fun p hp => ?_
  obtain ⟨ls, hls, hread⟩ := pathSteps_reads source toks p hp
  obtain ⟨hend, ls', hls', -, hsteps⟩ := pathSteps_lexemes source toks p hp
  obtain rfl : ls = ls' := List.append_cancel_right (hls.symm.trans hls')
  rw [hls] at hshort
  have hsteps : ∀ s ∈ p.1, s.IsShort := hsteps (areShort_append.mp hshort).1
  dsimp only
  generalize hfull : (if atCandidate = true then Step.field "@" :: p.1 else p.1) = full
  split
  · next head rest =>
    obtain ⟨hrest, hlost⟩ := stepsFrom_cons hfull
    refine .bind ((filterPath_fails fun s hs => hsteps s (hrest s hs)).imp fun h => ?_)
      fun p _ => .ok
    exact ⟨ls, _, hls, hend, atCandidate, ls, p.1, rfl, hread, ⟨head, rest, hfull⟩, hsteps,
      hlost.mp h⟩
  · exact .fail

/-! ## The place of a lost path -/

/-- A path is lost among the lexemes: with another path in its place they begin what has
the property. -/
def LosesIn (Good : List Lexeme → Prop) (ls : List Lexeme) : Prop :=
  ∃ before path after more, ls = before ++ (path ++ after) ∧ IsLost path ∧ Ends 3 after ∧
    Good (before ++ .mark .current :: more)

section Places

variable {Good Good' : List Lexeme → Prop}

theorem LosesIn.within (h : LosesIn Good ls) (front back : List Lexeme)
    (hgood : ∀ ls, Good ls → Good' (front ++ (ls ++ back))) : LosesIn Good' (front ++ ls) := by
  obtain ⟨before, path, after, more, rfl, hlost, hend, hmore⟩ := h
  refine ⟨front ++ before, path, after, more ++ back, ?_, hlost, hend, ?_⟩
  · rw [List.append_assoc]
  · have hall := hgood _ hmore
    rwa [List.append_assoc, List.cons_append, ← List.append_assoc front] at hall

theorem LosesIn.imp (h : LosesIn Good ls) (hgood : ∀ ls, Good ls → Good' ls) :
    LosesIn Good' ls := by
  obtain ⟨before, path, after, more, hls, hlost, hend, hmore⟩ := h
  exact ⟨before, path, after, more, hls, hlost, hend, hgood _ hmore⟩

end Places

/-- The lexemes of a condition of the rank. -/
def IsConditionAt (rank : Nat) (ls : List Lexeme) : Prop := ∃ f, ReadsAt rank ls f

/-- The lexemes of conditions behind the mark of a connective. -/
def IsMoreAt (k : Nat) (ls : List Lexeme) : Prop :=
  ∃ operands : List (List Lexeme × Filter), (∀ o ∈ operands, ReadsAt (k + 1) o.1 o.2) ∧
    ls = behind (connectiveMark k) (operands.map Prod.fst)

/-- The lexemes of an operand. -/
def IsOperandText (ls : List Lexeme) : Prop := ∃ v, ReadsOperand ls v

theorem isOperandText_current : IsOperandText [.mark .current] := by
  have hwritable : (Place.candidate []).IsWritable := by
    refine List.forall_mem_singleton.mpr ⟨trivial, .inl ?_⟩
    decide +kernel
  exact ⟨_, Place.reads hwritable⟩

theorem plainOperand_fails (hshort : AreShort (toks.map Token.lexeme)) :
    FailsAs (LosesIn IsOperandText (toks.map Token.lexeme)) (plainOperand source toks) := by
  have hpath : ∀ (atCandidate : Bool) {offset size : Nat} {rest : List Token},
      AreShort (rest.map Token.lexeme) →
      FailsAs (LosesIn IsOperandText (Token.lexeme ⟨.mark (pathMark atCandidate), offset, size⟩ ::
        rest.map Token.lexeme)) (relativePath source atCandidate rest) := by
    intro atCandidate offset size rest hshort
    refine (relativePath_fails source atCandidate hshort).imp ?_
    rintro ⟨ls, after, hls, hend, hlost⟩
    exact ⟨[], _, after, [], congrArg (_ :: ·) hls, hlost, hend, isOperandText_current⟩
  unfold plainOperand
  split
  · exact .ok
  · exact .ok
  · split
    · exact .ok
    · exact .fail
  · exact .bind (hpath true hshort.tail) fun p _ => .ok
  · exact .bind (hpath false hshort.tail) fun p _ => .ok
  · exact .fail

theorem IsPhrase.isConditionAt {rank : Nat} {p : Parsed Filter toks} (h : IsPhrase rank p)
    (hrank : rank ≤ 2) : ∃ ls, toks.map Token.lexeme = ls ++ p.rest.map Token.lexeme ∧
      ReadsAt rank ls p.value := by
  obtain ⟨t, ht, hle, hfilter, hlexemes⟩ := h
  exact ⟨t.lexemes, hlexemes, hfilter ▸ ht.reads.1 rank hle hrank⟩

theorem IsConditionAt.pred {k : Nat} (hk : k < 2) (h : IsConditionAt (k + 1) ls) :
    IsConditionAt k ls := by
  obtain ⟨f, hf⟩ := h
  exact ⟨f, hf.pred hk⟩

/-- What is lost behind the first operand of a chain is lost in the chain. -/
theorem LosesIn.chain {k : Nat} (hk : k < 2) {p : Parsed Filter toks} (hp : IsPhrase (k + 1) p)
    (h : LosesIn (IsMoreAt k) (p.rest.map Token.lexeme)) :
    LosesIn (IsConditionAt k) (toks.map Token.lexeme) := by
  obtain ⟨ls, hls, hread⟩ := hp.isConditionAt hk
  rw [hls]
  refine h.within ls [] ?_
  rintro _ ⟨operands, hoperands, rfl⟩
  rw [List.append_nil]
  exact ⟨_, hread.chain hk hoperands⟩

theorem LosesIn.more {k offset size : Nat}
    (h : LosesIn (IsConditionAt (k + 1)) (toks.map Token.lexeme)) :
    LosesIn (IsMoreAt k) ((⟨.mark (connectiveMark k), offset, size⟩ :: toks).map Token.lexeme) := by
  refine h.within [.mark (connectiveMark k)] [] ?_
  rintro ls ⟨f, hf⟩
  exact ⟨[(ls, f)], List.forall_mem_singleton.mpr hf, rfl⟩

theorem LosesIn.later {k offset size : Nat} (hk : k < 2) {p : Parsed Filter toks}
    (hp : IsPhrase (k + 1) p) (h : LosesIn (IsMoreAt k) (p.rest.map Token.lexeme)) :
    LosesIn (IsMoreAt k) ((⟨.mark (connectiveMark k), offset, size⟩ :: toks).map Token.lexeme) := by
  obtain ⟨ls, hls, hread⟩ := hp.isConditionAt hk
  rw [List.map_cons, hls]
  refine h.within (.mark (connectiveMark k) :: ls) [] ?_
  rintro _ ⟨operands, hoperands, rfl⟩
  refine ⟨(ls, p.value) :: operands, List.forall_mem_cons.mpr ⟨hread, hoperands⟩, ?_⟩
  rw [List.append_nil]
  rfl

/-- The tokens that a phrase leaves are short if all are. -/
theorem IsPhrase.areShort {rank : Nat} {p : Parsed Filter toks} (h : IsPhrase rank p)
    (hshort : AreShort (toks.map Token.lexeme)) : AreShort (p.rest.map Token.lexeme) := by
  obtain ⟨t, -, -, -, hlexemes⟩ := h
  rw [hlexemes] at hshort
  exact (areShort_append.mp hshort).2

/-- What the rules of a filter fail at, if it is no fault of the text: a lost path. -/
theorem rules_fail (source : String) :
    (∀ toks, AreShort (toks.map Token.lexeme) →
      FailsAs (LosesIn (IsConditionAt 0) (toks.map Token.lexeme)) (orFilter source toks)) ∧
    (∀ toks, AreShort (toks.map Token.lexeme) →
      FailsAs (LosesIn (IsMoreAt 0) (toks.map Token.lexeme)) (moreOr source toks)) ∧
    (∀ toks, AreShort (toks.map Token.lexeme) →
      FailsAs (LosesIn (IsConditionAt 1) (toks.map Token.lexeme)) (andFilter source toks)) ∧
    (∀ toks, AreShort (toks.map Token.lexeme) →
      FailsAs (LosesIn (IsMoreAt 1) (toks.map Token.lexeme)) (moreAnd source toks)) ∧
    (∀ toks, AreShort (toks.map Token.lexeme) →
      FailsAs (LosesIn (IsConditionAt 2) (toks.map Token.lexeme)) (unary source toks)) ∧
    (∀ toks, AreShort (toks.map Token.lexeme) →
      FailsAs (LosesIn (IsConditionAt 2) (toks.map Token.lexeme)) (comparison source toks)) ∧
    ∀ toks, AreShort (toks.map Token.lexeme) →
      FailsAs (LosesIn IsOperandText (toks.map Token.lexeme)) (operand source toks) := by
  obtain ⟨hor, hmoreOr, hand, hmoreAnd, hunary, hcomparison, hoperand⟩ := rules_phrases source
  apply orFilter.mutual_induct
  case case1 =>
    intro toks hfirst hmore hshort
    rw [orFilter]
    refine .bind ((hfirst hshort).imp fun h => h.imp fun _ hls => hls.pred (by decide)) ?_
    intro first hf
    have hphrase := hand toks first hf
    exact .bind ((hmore first (hphrase.areShort hshort)).imp fun h => h.chain (by decide) hphrase)
      fun _ _ => .ok
  case case2 =>
    intro offset size rest hfirst hmore hshort
    rw [moreOr]
    refine .bind ((hfirst hshort.tail).imp fun h => h.more (k := 0)) ?_
    intro first hf
    have hphrase := hand rest first hf
    exact .bind ((hmore first (hphrase.areShort hshort.tail)).imp fun h =>
      h.later (by decide) hphrase) fun _ _ => .ok
  case case3 =>
    intro other hother _
    rw [moreOr.eq_def]
    split
    · next offset size rest _ => exact absurd rfl (hother offset size rest)
    · exact .ok
  case case4 =>
    intro toks hfirst hmore hshort
    rw [andFilter]
    refine .bind ((hfirst hshort).imp fun h => h.imp fun _ hls => hls.pred (by decide)) ?_
    intro first hf
    have hphrase := hunary toks first hf
    exact .bind ((hmore first (hphrase.areShort hshort)).imp fun h => h.chain (by decide) hphrase)
      fun _ _ => .ok
  case case5 =>
    intro offset size rest hfirst hmore hshort
    rw [moreAnd]
    refine .bind ((hfirst hshort.tail).imp fun h => h.more (k := 1)) ?_
    intro first hf
    have hphrase := hunary rest first hf
    exact .bind ((hmore first (hphrase.areShort hshort.tail)).imp fun h =>
      h.later (by decide) hphrase) fun _ _ => .ok
  case case6 =>
    intro other hother _
    rw [moreAnd.eq_def]
    split
    · next offset size rest _ => exact absurd rfl (hother offset size rest)
    · exact .ok
  case case7 =>
    intro offset size rest hoperand hshort
    rw [unary]
    refine .bind ((hoperand hshort.tail).imp fun h => h.within [.mark .not] [] ?_) fun _ _ => .ok
    rintro ls ⟨f, hf⟩
    rw [List.append_nil]
    exact ⟨_, hf.not⟩
  case case8 =>
    intro other hother hcomparison hshort
    rw [unary.eq_def]
    split
    · next offset size rest => exact absurd rfl (hother offset size rest)
    · exact hcomparison hshort
  case case9 =>
    intro toks hleft hright hshort
    rw [comparison]
    have halone : ∀ ls, IsOperandText ls → IsConditionAt 2 ls := by
      rintro ls ⟨v, hv⟩
      exact ⟨_, hv.alone⟩
    refine .bind ((hleft hshort).imp fun h => h.imp halone) ?_
    intro left hl
    split
    · next m offset size rest heq =>
      split
      · next op hop =>
        obtain ⟨t, ht, hrank, -, hlexemes⟩ := hoperand toks left hl
        have hbehind := congrArg (List.map Token.lexeme) heq
        rw [hlexemes, hbehind] at hshort ⊢
        have hrest := (areShort_append.mp hshort).2.tail
        refine .bind ((hright left m offset size rest heq hrest).imp fun h => ?_) fun _ _ => .ok
        rw [List.map_cons, List.append_cons]
        refine h.within (t.lexemes ++ [.mark m]) [] ?_
        rintro ls ⟨v, hv⟩
        rw [List.append_nil, List.append_assoc, ← comparisonMark_of_comparison? hop]
        exact ⟨_, (ht.reads.2 hrank).compare op hv⟩
      · exact .ok
    · exact .ok
  case case10 =>
    intro offset size rest hinner hshort
    rw [operand]
    refine .bind ((hinner hshort.tail).imp fun h =>
      h.within [.mark .openParen] [.mark .closeParen] ?_) fun _ _ =>
      .bind (expect_fails source _ _ _) fun _ _ => .ok
    rintro ls ⟨f, hf⟩
    exact ⟨_, hf.paren⟩
  case case11 =>
    intro other hother hshort
    rw [operand.eq_def]
    split
    · next offset size rest => exact absurd rfl (hother offset size rest)
    · exact plainOperand_fails source hshort

/-! ## Segments that fail at a lost path -/

theorem contents_fails (hshort : AreShort (toks.map Token.lexeme)) :
    FailsAs (LosesIn (fun ls => ∃ s, Reads contents ls s) (toks.map Token.lexeme))
      (contents source toks) := by
  unfold contents
  split
  · exact .ok
  · refine .bind (expect_fails source _ _ _) fun opening hopening => ?_
    have hlexemes := expect_lexemes source _ _ _ opening hopening
    rw [List.map_cons, hlexemes] at hshort ⊢
    refine .bind (((rules_fail source).1 _ hshort.tail.tail).imp fun h => ?_) fun _ _ =>
      .bind (expect_fails source _ _ _) fun _ _ => .ok
    refine h.within [.mark .question, .mark .openParen] [.mark .closeParen] ?_
    rintro ls ⟨f, hf⟩
    refine ⟨.filter f, fun source toks rest htoks => contents_filter source hf (htoks.trans ?_)⟩
    simp
  · exact selectors_fail source _

theorem bracket_fails (hshort : AreShort (toks.map Token.lexeme)) :
    FailsAs (LosesIn (fun ls => ∃ s, Reads bracket ls s) (toks.map Token.lexeme))
      (bracket source toks) := by
  unfold bracket
  refine .bind ((contents_fails source hshort).imp fun h => h.within [] [.mark .closeBracket] ?_)
    fun _ _ => .bind (expect_fails source _ _ _) fun _ _ => .ok
  rintro ls ⟨s, hs⟩
  refine ⟨s, fun source toks rest htoks => bracket_of_contents source (hs source toks _ ?_)⟩
  rw [htoks]
  simp

theorem segment_fails (hshort : AreShort (toks.map Token.lexeme)) :
    FailsAs (LosesIn (fun ls => ∃ s, Reads segment ls s) (toks.map Token.lexeme))
      (segment source toks) := by
  -- The rule is unfolded where it fails, and not in the property of what is lost.
  intro e he
  unfold segment at he
  revert e
  show FailsAs _ _
  split
  · exact .bind (member_fails source _) fun _ _ => .ok
  · refine .bind ((bracket_fails source hshort.tail.tail).imp fun h =>
      h.within [.mark .descend, .mark .openBracket] [] ?_) fun _ _ => .ok
    rintro ls ⟨s, hs⟩
    rw [List.append_nil]
    exact ⟨_, hs.descent⟩
  · exact .bind (member_fails source _) fun _ _ => .ok
  · refine .bind ((bracket_fails source hshort.tail).imp fun h =>
      h.within [.mark .openBracket] [] ?_) fun _ _ => .ok
    rintro ls ⟨s, hs⟩
    rw [List.append_nil]
    exact ⟨_, hs.bracket⟩
  · exact .fail

/-- The lexemes of segments, one behind the other. -/
def IsSegments (ls : List Lexeme) : Prop :=
  ∃ ss, ∀ (source : String) (toks : List Token), toks.map Token.lexeme = ls →
    segments source toks = .ok ss

theorem IsSegments.nil : IsSegments [] := by
  refine ⟨[], fun source toks htoks => ?_⟩
  rw [List.map_eq_nil_iff.mp htoks, segments]

theorem IsSegments.cons {ls' : List Lexeme} {s : Segment Filter} (h : Reads segment ls s)
    (h' : IsSegments ls') : IsSegments (ls ++ ls') := by
  obtain ⟨ss, hss⟩ := h'
  refine ⟨s :: ss, fun source toks htoks => ?_⟩
  obtain ⟨p, hp, rfl, hlexemes⟩ := h source toks _ htoks
  cases toks with
  | nil => exact absurd p.shorter (Nat.not_lt_zero _)
  | cons t rest =>
      rw [segments, hp]
      show (segments source p.rest >>= _) = _
      rw [hss source p.rest hlexemes]
      rfl

theorem segments_fail (hshort : AreShort (toks.map Token.lexeme)) :
    FailsAs (LosesIn IsSegments (toks.map Token.lexeme)) (segments source toks) := by
  fun_induction segments source toks with
  | case1 => exact .ok
  | case2 t rest ih =>
      refine .bind ((segment_fails source hshort).imp fun h => h.imp ?_) fun first hfirst => ?_
      · rintro ls ⟨s, hs⟩
        have hall := IsSegments.nil.cons hs
        rwa [List.append_nil] at hall
      · obtain ⟨ls, hlexemes, -, hread⟩ := segment_reads source (t :: rest) first hfirst
        rw [hlexemes] at hshort ⊢
        refine .bind ((ih first (areShort_append.mp hshort).2).imp fun h => h.within ls [] ?_)
          fun _ _ => .ok
        intro more hmore
        rw [List.append_nil]
        exact hmore.cons hread

/-- The lexemes of a query. -/
def IsQuery (ls : List Lexeme) : Prop :=
  ∃ (source : String) (toks : List Token) (ss : List (Segment Filter)),
    toks.map Token.lexeme = ls ∧ start source toks = .ok ss

theorem exists_tokens (ls : List Lexeme) : ∃ toks : List Token, toks.map Token.lexeme = ls :=
  ⟨ls.map fun l => ⟨l, 0, 0⟩, by rw [List.map_map]; exact List.map_id ls⟩

theorem start_fails (hshort : AreShort (toks.map Token.lexeme)) :
    FailsAs (LosesIn IsQuery (toks.map Token.lexeme)) (start source toks) := by
  unfold start
  split
  · refine (segments_fail source hshort.tail).imp fun h => h.within [.mark .root] [] ?_
    rintro ls ⟨ss, hss⟩
    obtain ⟨toks, rfl⟩ := exists_tokens ls
    rw [List.append_nil]
    exact ⟨"", ⟨.mark .root, 0, 0⟩ :: toks, ss, rfl, hss "" toks rfl⟩
  · next s _ _ rest =>
    refine .bind ((segments_fail source hshort.tail).imp fun h => h.within [.name s] [] ?_)
      fun _ _ => .ok
    rintro ls ⟨ss, hss⟩
    obtain ⟨toks, rfl⟩ := exists_tokens ls
    rw [List.append_nil]
    refine ⟨"", ⟨.name s, 0, 0⟩ :: toks, .step (.field s) :: ss, rfl, ?_⟩
    rw [start, hss "" toks rfl]
    rfl
  · refine (segments_fail source hshort).imp fun h => ?_
    obtain ⟨before, path, after, more, hls, hlost, hend, ss, hss⟩ := h
    refine ⟨before, path, after, more, hls, hlost, hend, ?_⟩
    cases before with
    | nil =>
        obtain ⟨atCandidate, _, _, rfl, _⟩ := hlost
        cases atCandidate <;> cases hls
    | cons l before =>
        obtain ⟨rfl, -⟩ := List.cons.inj hls
        obtain ⟨toks, htoks⟩ := exists_tokens (before ++ .mark .current :: more)
        have hall : (⟨.mark .openBracket, 0, 0⟩ :: toks).map Token.lexeme =
            .mark .openBracket :: before ++ .mark .current :: more := by
          rw [List.map_cons, htoks]
          rfl
        exact ⟨"", _, ss, hall, hss "" _ hall⟩
  · exact .fail

end Conduit.Query
