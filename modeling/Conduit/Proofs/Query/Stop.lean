import Conduit.Proofs.Query.Rejection

/-!
# Every lost path is come to

Lexemes that go on to a query with some path behind them are read as far as the path. So
a lost path in that place is come to, and the query fails there: no rule has failed before,
and none goes around it. For the rules of a filter the induction is on the phrase that the
other path stands in.
-/

namespace Conduit.Query

variable {ls path after before : List Lexeme} {toks : List Token} (source : String)

/-! ## Places in a text -/

section Cuts

variable {α : Type} {c : α} {xs ys front back : List α}

theorem append_eq_append_cons (h : xs ++ ys = front ++ c :: back) :
    (∃ d, xs = front ++ c :: d) ∨ ∃ b, front = xs ++ b ∧ ys = b ++ c :: back := by
  rcases List.append_eq_append_iff.mp h with ⟨b, rfl, hys⟩ | ⟨d, rfl, hd⟩
  · exact .inr ⟨b, rfl, hys⟩
  · cases d with
    | nil => exact .inr ⟨[], (List.append_nil _).symm ▸ (List.append_nil _).symm, hd.symm⟩
    | cons e d =>
        obtain ⟨rfl, -⟩ := List.cons.inj hd
        exact .inl ⟨d, rfl⟩

end Cuts

/-- The rule fails at the path, if this stands behind the lexemes. -/
def StopsAt {F : List Token → Type} (path after : List Lexeme)
    (read : String → (toks : List Token) → Except Error (F toks)) (before : List Lexeme) : Prop :=
  ∀ (source : String) (toks : List Token), toks.map Token.lexeme = before ++ (path ++ after) →
    ∃ e, read source toks = .error (.filterPath e)

/-- The first lexeme of a lost path is one of two marks. -/
theorem IsLost.first (h : IsLost path) :
    ∃ m ls, path = .mark m :: ls ∧ (m = .current ∨ m = .root) := by
  obtain ⟨atCandidate, ls, _, rfl, _⟩ := h
  cases atCandidate with
  | true => exact ⟨_, ls, rfl, .inl rfl⟩
  | false => exact ⟨_, ls, rfl, .inr rfl⟩

theorem IsLost.relativePath {atCandidate : Bool} {steps : List Step}
    (hread : ReadsAs pathSteps ls steps)
    (hname : ∃ head rest, stepsFrom atCandidate steps = .field head :: rest)
    (hshort : ∀ s ∈ steps, s.IsShort) (hlost : ∃ s ∈ steps, ¬s.IsRecoverable)
    (hend : Ends 3 after) (htoks : toks.map Token.lexeme = ls ++ after) :
    ∃ e, Query.relativePath source atCandidate toks = .error (.filterPath e) := by
  obtain ⟨last, hlast, -⟩ := hread source toks after htoks hend
  obtain ⟨head, rest, hfull⟩ := hname
  obtain ⟨hrest, hlost'⟩ := stepsFrom_cons hfull
  obtain ⟨e, he⟩ :=
    (filterPath_error_iff fun s hs => hshort s (hrest s hs)).mpr (hlost'.mpr hlost)
  refine ⟨e, ?_⟩
  have hsteps : (if atCandidate = true then Step.field "@" :: steps else steps) =
      .field head :: rest := hfull
  rw [Query.relativePath, hlast]
  dsimp only [bind, Except.bind]
  rw [hsteps]
  dsimp only
  rw [he]

theorem IsLost.stopsAt (h : IsLost path) (hend : Ends 3 after) :
    StopsAt path after operand [] := by
  intro source toks htoks
  obtain ⟨atCandidate, ls, steps, rfl, hread, hname, hshort, hlost⟩ := h
  have hparen : Lexeme.mark (pathMark atCandidate) ≠ .mark .openParen := by
    cases atCandidate <;> nofun
  rw [operand_eq source htoks hparen]
  obtain ⟨_, _, behind, rfl, hbehind⟩ := exists_of_lexemes htoks
  obtain ⟨e, he⟩ := IsLost.relativePath source hread hname hshort hlost hend hbehind
  refine ⟨e, ?_⟩
  cases atCandidate with
  | true =>
      show plainOperand source (⟨.mark .current, _, _⟩ :: behind) = _
      rw [plainOperand, he]
      rfl
  | false =>
      show plainOperand source (⟨.mark .root, _, _⟩ :: behind) = _
      rw [plainOperand, he]
      rfl

section Rules

variable {k : Nat}

theorem StopsAt.comparison (h : StopsAt path after operand before) :
    StopsAt path after Query.comparison before := by
  intro source toks htoks
  obtain ⟨e, he⟩ := h source toks htoks
  refine ⟨e, ?_⟩
  rw [Query.comparison, he]
  rfl

theorem StopsAt.unary (h : StopsAt path after Query.comparison before)
    (hfirst : ∃ l rest, before ++ (path ++ after) = l :: rest ∧ l ≠ .mark .not) :
    StopsAt path after (rule 2) before := by
  intro source toks htoks
  obtain ⟨l, rest, hl, hnot⟩ := hfirst
  obtain ⟨e, he⟩ := h source toks htoks
  refine ⟨e, ?_⟩
  show Query.unary source toks = _
  rw [unary_eq source (htoks.trans hl) hnot, he]

theorem StopsAt.pred (hk : k < 2) (h : StopsAt path after (rule (k + 1)) before) :
    StopsAt path after (rule k) before := by
  intro source toks htoks
  obtain ⟨e, he⟩ := h source toks htoks
  refine ⟨e, ?_⟩
  rw [rule_eq source hk, he]
  rfl

theorem StopsAt.loosen {r : Nat} (hkr : k ≤ r) (hr : r ≤ 2)
    (h : StopsAt path after (rule r) before) : StopsAt path after (rule k) before := by
  induction hkr with
  | refl => exact h
  | step _ ih => exact ih (Nat.le_of_succ_le hr) (h.pred hr)

/-- The rule fails behind an operand that it reads. -/
theorem StopsAt.behind (hk : k < 2) {f : Filter} (hread : ReadsAt (k + 1) ls f)
    (hend : Ends (k + 1) (before ++ (path ++ after)))
    (h : StopsAt path after (moreRule k) before) :
    StopsAt path after (rule k) (ls ++ before) := by
  intro source toks htoks
  rw [List.append_assoc] at htoks
  obtain ⟨p, hp, -, hlexemes⟩ := hread source toks _ htoks hend
  obtain ⟨e, he⟩ := h source p.rest hlexemes
  refine ⟨e, ?_⟩
  rw [rule_eq source hk, hp]
  show (moreRule k source p.rest >>= _) = _
  rw [he]
  rfl

theorem StopsAt.more (hk : k < 2) (h : StopsAt path after (rule (k + 1)) before) :
    StopsAt path after (moreRule k) (.mark (connectiveMark k) :: before) := by
  intro source toks htoks
  obtain ⟨_, _, rest, rfl, hrest⟩ := exists_of_lexemes htoks
  obtain ⟨e, he⟩ := h source rest hrest
  refine ⟨e, ?_⟩
  rw [moreRule_eq source hk, he]
  rfl

theorem StopsAt.later (hk : k < 2) {f : Filter} (hread : ReadsAt (k + 1) ls f)
    (hend : Ends (k + 1) (before ++ (path ++ after)))
    (h : StopsAt path after (moreRule k) before) :
    StopsAt path after (moreRule k) (.mark (connectiveMark k) :: (ls ++ before)) := by
  intro source toks htoks
  rw [List.cons_append, List.append_assoc] at htoks
  obtain ⟨_, _, rest, rfl, hrest⟩ := exists_of_lexemes htoks
  obtain ⟨p, hp, -, hlexemes⟩ := hread source rest _ hrest hend
  obtain ⟨e, he⟩ := h source p.rest hlexemes
  refine ⟨e, ?_⟩
  rw [moreRule_eq source hk, hp]
  show (moreRule k source p.rest >>= _) = _
  rw [he]
  rfl

theorem StopsAt.not (h : StopsAt path after (rule 2) before) :
    StopsAt path after (rule 2) (.mark .not :: before) := by
  intro source toks htoks
  obtain ⟨_, _, rest, rfl, hrest⟩ := exists_of_lexemes htoks
  obtain ⟨e, he⟩ := h source rest hrest
  have he : Query.unary source rest = .error (.filterPath e) := he
  refine ⟨e, ?_⟩
  show Query.unary source _ = _
  rw [Query.unary, he]
  rfl

theorem StopsAt.group (h : StopsAt path after (rule 0) before) :
    StopsAt path after operand (.mark .openParen :: before) := by
  intro source toks htoks
  obtain ⟨_, _, rest, rfl, hrest⟩ := exists_of_lexemes htoks
  obtain ⟨e, he⟩ := h source rest hrest
  have he : orFilter source rest = .error (.filterPath e) := he
  refine ⟨e, ?_⟩
  rw [operand, he]
  rfl

theorem StopsAt.compared {op : Comparison} {v : Filter × Bool} (hread : ReadsOperand ls v)
    (h : StopsAt path after operand before) :
    StopsAt path after Query.comparison (ls ++ .mark (comparisonMark op) :: before) := by
  intro source toks htoks
  rw [List.append_assoc] at htoks
  have hbehind : Ends 3 (.mark (comparisonMark op) :: (before ++ (path ++ after))) := by
    cases op <;> exact .cons (by decide)
  have hop : comparison? (comparisonMark op) = some op := by cases op <;> rfl
  obtain ⟨p, hp, -, hlexemes⟩ := hread.reads source toks _ htoks hbehind
  obtain ⟨_, _, rest, hrest, hafter⟩ := exists_of_lexemes hlexemes
  obtain ⟨e, he⟩ := h source rest hafter
  refine ⟨e, ?_⟩
  rw [Query.comparison, hp]
  dsimp only [bind, Except.bind]
  split
  · next m _ _ rest' hrest' =>
      obtain ⟨rfl, rfl⟩ : m = comparisonMark op ∧ rest' = rest := by
        rw [hrest] at hrest'
        cases hrest'
        exact ⟨rfl, rfl⟩
      simp only [hop, he]
  · next hne => exact absurd hrest (hne _ _ _ _)

end Rules

section Phrases

variable {k : Nat} {p : Phrase} {more : List Phrase} {rest : List Lexeme}

/-- A place behind another lexeme. -/
theorem exists_behind {l : Lexeme} (hat : l :: ls = before ++ .mark .current :: rest)
    (hl : l ≠ .mark .current) : ∃ b, before = l :: b ∧ ls = b ++ .mark .current :: rest := by
  cases before with
  | nil => exact absurd (List.cons.inj hat).1 hl
  | cons d b =>
      obtain ⟨rfl, hls⟩ := List.cons.inj hat
      exact ⟨b, rfl, hls⟩

/-- A lexeme alone leaves no place for a path. -/
theorem ne_behind {l : Lexeme} (hl : l ≠ .mark .current) :
    [l] ≠ before ++ .mark .current :: rest := by
  intro h
  obtain ⟨b, rfl, hb⟩ := exists_behind h hl
  cases b <;> cases hb

theorem connectiveMark_ne_current (k : Nat) :
    Lexeme.mark (connectiveMark k) ≠ .mark .current := by
  cases k <;> nofun

/-- Before the place of a path there is the mark of the connective. -/
theorem ends_of_behind (hk : k < 2) {operands : List (List Lexeme)}
    (hat : behind (connectiveMark k) operands = before ++ .mark .current :: rest)
    (ls : List Lexeme) : Ends (k + 1) (before ++ ls) := by
  cases operands with
  | nil =>
      cases before <;> cases hat
  | cons first operands =>
      obtain ⟨b, rfl, -⟩ := exists_behind hat (connectiveMark_ne_current k)
      obtain rfl | rfl : k = 0 ∨ k = 1 := by omega
      · exact .cons rfl
      · exact .cons rfl

/-- A phrase that is read by the rule, and at whose paths the rule fails. -/
def StopsIn (k : Nat) (path after : List Lexeme) (p : Phrase) : Prop :=
  ReadsAt k p.lexemes p.filter ∧ ∀ {before rest : List Lexeme},
    p.lexemes = before ++ .mark .current :: rest → StopsAt path after (rule k) before

theorem stopsAt_more (hk : k < 2) (hmore : ∀ p ∈ more, StopsIn (k + 1) path after p)
    (hat : behind (connectiveMark k) (more.map Phrase.lexemes) =
      before ++ .mark .current :: rest) : StopsAt path after (moreRule k) before := by
  induction more generalizing before with
  | nil => cases before <;> cases hat
  | cons p more ih =>
      obtain ⟨⟨hread, hstop⟩, hmore⟩ := List.forall_mem_cons.mp hmore
      obtain ⟨b, rfl, hb⟩ := exists_behind hat (connectiveMark_ne_current k)
      rcases append_eq_append_cons hb with ⟨d, hd⟩ | ⟨c, rfl, hc⟩
      · exact (hstop hd).more hk
      · exact (ih hmore hc).later hk hread (ends_of_behind hk hc _)

theorem stopsAt_chain (hk : k < 2) (hp : StopsIn (k + 1) path after p)
    (hmore : ∀ p ∈ more, StopsIn (k + 1) path after p)
    (hat : p.lexemes ++ behind (connectiveMark k) (more.map Phrase.lexemes) =
      before ++ .mark .current :: rest) : StopsAt path after (rule k) before := by
  rcases append_eq_append_cons hat with ⟨d, hd⟩ | ⟨c, rfl, hc⟩
  · exact (hp.2 hd).pred hk
  · exact (stopsAt_more hk hmore hc).behind hk hp.1 (ends_of_behind hk hc _)

theorem relativePath_lexemes (atCandidate : Bool) (toks : List Token) :
    Yields (fun p => ∃ ls, toks.map Token.lexeme = ls ++ p.2.1.map Token.lexeme ∧
        .mark .current ∉ ls)
      (relativePath source atCandidate toks) := by
  rw [relativePath]
  refine .bind (pathSteps_lexemes source toks) fun steps hsteps => ?_
  obtain ⟨-, ls, hls, hcurrent, -⟩ := hsteps
  dsimp only
  split
  · exact .bind .any fun p _ => .ok ⟨ls, hls, hcurrent⟩
  · exact .fail

/-- An operand without parentheses has the mark of the candidate at its start, if anywhere. -/
theorem plainOperand_lexemes (toks : List Token) :
    Yields (fun p => ∃ l ls, toks.map Token.lexeme = l :: (ls ++ p.rest.map Token.lexeme) ∧
        .mark .current ∉ ls)
      (plainOperand source toks) := by
  have hnil : Lexeme.mark .current ∉ [] := List.not_mem_nil
  unfold plainOperand
  split
  · exact .ok ⟨_, [], rfl, hnil⟩
  · exact .ok ⟨_, [], rfl, hnil⟩
  · split
    · exact .ok ⟨_, [], rfl, hnil⟩
    · exact .fail
  · refine .bind (relativePath_lexemes source true _) fun p hp => .ok ?_
    obtain ⟨ls, hls, hcurrent⟩ := hp
    exact ⟨_, ls, congrArg (_ :: ·) hls, hcurrent⟩
  · refine .bind (relativePath_lexemes source false _) fun p hp => .ok ?_
    obtain ⟨ls, hls, hcurrent⟩ := hp
    exact ⟨_, ls, congrArg (_ :: ·) hls, hcurrent⟩
  · exact .fail

theorem ReadsPlain.current_first {v : Filter × Bool} (h : ReadsPlain ls v)
    (hat : ls = before ++ .mark .current :: rest) : before = [] := by
  obtain ⟨toks, htoks⟩ := exists_tokens ls
  obtain ⟨p, hp, -, hlast⟩ := h.reads "" toks [] (by rw [htoks, List.append_nil]) nofun
  obtain ⟨l, more, hmore, hcurrent⟩ := plainOperand_lexemes "" toks p hp
  rw [htoks, hat, hlast, List.append_nil] at hmore
  cases before with
  | nil => rfl
  | cons d b =>
      obtain ⟨-, rfl⟩ := List.cons.inj hmore
      exact absurd (List.mem_append_right b List.mem_cons_self) hcurrent

/-- The first lexeme before a place is that of the text, unless the path stands first. -/
theorem first_ne_not (after : List Lexeme) (hlost : IsLost path)
    (hat : ls = before ++ .mark .current :: rest)
    (hfirst : ∃ l more, ls = l :: more ∧ l ≠ .mark .not) :
    ∃ l more, before ++ (path ++ after) = l :: more ∧ l ≠ .mark .not := by
  cases before with
  | nil =>
      obtain ⟨m, more, rfl, rfl | rfl⟩ := hlost.first
      · exact ⟨_, _, rfl, nofun⟩
      · exact ⟨_, _, rfl, nofun⟩
  | cons d b =>
      obtain ⟨l, more, hl, hnot⟩ := hfirst
      obtain ⟨rfl, -⟩ := List.cons.inj (hl.symm.trans hat)
      exact ⟨_, _, rfl, hnot⟩

/-- Wherever a path stands in a phrase, the rules fail if it is a lost one. -/
theorem Phrase.IsGrammatical.stopsAt (h : p.IsGrammatical) (hlost : IsLost path)
    (hend : Ends 3 after) {before rest : List Lexeme}
    (hat : p.lexemes = before ++ .mark .current :: rest) :
    (∀ k ≤ p.rank, k ≤ 2 → StopsAt path after (rule k) before) ∧
      (p.rank = 3 → StopsAt path after operand before) := by
  have halone : ∀ {p : Phrase}, p.IsGrammatical → p.rank = 3 → ∀ {before rest : List Lexeme},
      p.lexemes = before ++ .mark .current :: rest → StopsAt path after operand before →
      (∀ k ≤ p.rank, k ≤ 2 → StopsAt path after (rule k) before) ∧
        (p.rank = 3 → StopsAt path after operand before) := by
    intro p hp hrank before rest hat hstop
    have hfirst := first_ne_not after hlost hat (hp.reads.2 hrank).first
    exact ⟨fun k _ hk => (hstop.comparison.unary hfirst).loosen hk (Nat.le_refl 2), fun _ => hstop⟩
  induction h generalizing before rest with
  | @plain ls f bare h =>
      have hnil : before = [] := h.current_first hat
      subst hnil
      exact halone (.plain h) rfl hat (hlost.stopsAt hend)
  | @group inner h ih =>
      refine halone (.group h) rfl hat ?_
      rw [lexemes, parenthesized] at hat
      obtain ⟨b, rfl, hb⟩ := exists_behind hat (by decide)
      rcases append_eq_append_cons hb with ⟨d, hd⟩ | ⟨c, rfl, hc⟩
      · exact ((ih hd).1 0 (Nat.zero_le _) (Nat.zero_le 2)).group
      · exact absurd hc (ne_behind (by decide))
  | @compare op left right hl hr hleft hright ihl ihr =>
      refine ⟨fun k _ hk => ?_, fun hthree => by cases hthree⟩
      refine StopsAt.loosen hk (Nat.le_refl 2) ?_
      have hfirst := first_ne_not after hlost hat <| by
        obtain ⟨l, more, hl, hnot⟩ := (hl.reads.2 hleft).first
        exact ⟨l, _, by rw [lexemes, hl]; rfl, hnot⟩
      refine StopsAt.unary ?_ hfirst
      rw [lexemes] at hat
      rcases append_eq_append_cons hat with ⟨d, hd⟩ | ⟨c, rfl, hc⟩
      · exact ((ihl hd).2 hleft).comparison
      · obtain ⟨b, rfl, hb⟩ := exists_behind hc (by cases op <;> decide)
        exact StopsAt.compared (hl.reads.2 hleft) ((ihr hb).2 hright)
  | @not operand h hrank ih =>
      refine ⟨fun k _ hk => StopsAt.loosen hk (Nat.le_refl 2) ?_, fun hthree => by cases hthree⟩
      rw [lexemes] at hat
      obtain ⟨b, rfl, hb⟩ := exists_behind hat (by decide)
      exact ((ih hb).1 2 hrank (Nat.le_refl 2)).not
  | @chain k first more hk hmore h hrank ih =>
      have hstops : ∀ p ∈ first :: more, StopsIn (k + 1) path after p := fun p hp =>
        ⟨(h p hp).reads.1 (k + 1) (hrank p hp) hk,
          fun hat => (ih p hp hat).1 (k + 1) (hrank p hp) hk⟩
      obtain ⟨hfirst, hrest⟩ := List.forall_mem_cons.mp hstops
      rw [lexemes, allLexemes_eq] at hat
      refine ⟨fun r hr _ => StopsAt.loosen hr (Nat.le_of_lt hk) (stopsAt_chain hk hfirst hrest hat),
        fun hoperand => ?_⟩
      have hthree : k = 3 := hoperand
      omega

end Phrases

section Segments

variable {rest : List Lexeme}

theorem IsContents.stopsAt (h : IsContents ls) (hlost : IsLost path) (hend : Ends 3 after)
    (hat : ls = before ++ .mark .current :: rest) : StopsAt path after contents before := by
  cases h with
  | plain h => exact absurd (hat ▸ List.mem_append_right before List.mem_cons_self) h
  | @filter t ht =>
      obtain ⟨b, rfl, hb⟩ := exists_behind hat (by decide)
      obtain ⟨c, rfl, hc⟩ := exists_behind hb (by decide)
      rcases append_eq_append_cons hc with ⟨d, hd⟩ | ⟨d, rfl, hd⟩
      · intro source toks htoks
        obtain ⟨_, _, inner, rfl, hinner⟩ := exists_of_lexemes htoks
        obtain ⟨opening, hopening, -, hlexemes⟩ := expect_written source "'(' after '?'" hinner
        have hstop := (ht.stopsAt hlost hend hd).1 0 (Nat.zero_le _) (Nat.zero_le 2)
        obtain ⟨e, he⟩ := hstop source opening.rest hlexemes
        have he : orFilter source opening.rest = .error (.filterPath e) := he
        refine ⟨e, ?_⟩
        rw [contents, hopening]
        show (orFilter source opening.rest >>= _) = _
        rw [he]
        rfl
      · exact absurd hd (ne_behind (by decide))

theorem StopsAt.bracket (h : StopsAt path after contents before) :
    StopsAt path after Query.bracket before := by
  intro source toks htoks
  obtain ⟨e, he⟩ := h source toks htoks
  refine ⟨e, ?_⟩
  rw [Query.bracket, he]
  rfl

theorem StopsAt.segment (h : StopsAt path after Query.bracket before) :
    StopsAt path after Query.segment (.mark .openBracket :: before) := by
  intro source toks htoks
  obtain ⟨_, _, inner, rfl, hinner⟩ := exists_of_lexemes htoks
  obtain ⟨e, he⟩ := h source inner hinner
  refine ⟨e, ?_⟩
  rw [Query.segment, he]
  rfl

theorem StopsAt.descent (h : StopsAt path after Query.bracket before) :
    StopsAt path after Query.segment (.mark .descend :: .mark .openBracket :: before) := by
  intro source toks htoks
  obtain ⟨_, _, behind, rfl, hbehind⟩ := exists_of_lexemes htoks
  obtain ⟨_, _, inner, rfl, hinner⟩ := exists_of_lexemes hbehind
  obtain ⟨e, he⟩ := h source inner hinner
  refine ⟨e, ?_⟩
  rw [Query.segment, he]
  rfl

theorem IsSegment.stopsAt (h : IsSegment ls) (hlost : IsLost path) (hend : Ends 3 after)
    (hat : ls = before ++ .mark .current :: rest) : StopsAt path after segment before := by
  have hinner : ∀ {ls b : List Lexeme}, IsContents ls →
      ls ++ [.mark .closeBracket] = b ++ .mark .current :: rest →
      StopsAt path after Query.bracket b := by
    intro ls b hls hb
    rcases append_eq_append_cons hb with ⟨d, hd⟩ | ⟨d, rfl, hd⟩
    · exact (hls.stopsAt hlost hend hd).bracket
    · exact absurd hd (ne_behind (by decide))
  cases h with
  | plain h => exact absurd (hat ▸ List.mem_append_right before List.mem_cons_self) h
  | bracket h =>
      obtain ⟨b, rfl, hb⟩ := exists_behind hat (by decide)
      exact (hinner h hb).segment
  | descent h =>
      obtain ⟨b, rfl, hb⟩ := exists_behind hat (by decide)
      obtain ⟨c, rfl, hc⟩ := exists_behind hb (by decide)
      exact (hinner h hc).descent

theorem segments_stopsAt {ss : List (Segment Filter)} (hlost : IsLost path) (hend : Ends 3 after)
    (h : segments source toks = .ok ss)
    (hat : toks.map Token.lexeme = before ++ .mark .current :: rest) :
    StopsAt path after segments before := by
  fun_induction segments source toks generalizing before ss with
  | case1 => cases before <;> cases hat
  | case2 t more ih =>
      obtain ⟨first, hfirst, h⟩ := ok_of_bind h
      obtain ⟨later, hlater, -⟩ := ok_of_bind h
      obtain ⟨ls, hls, hform, hread⟩ := segment_reads source (t :: more) first hfirst
      rw [hls] at hat
      have hnonempty : ∀ {toks : List Token} {front : List Lexeme},
          toks.map Token.lexeme = front ++ (path ++ after) → ∃ t rest, toks = t :: rest := by
        intro toks front htoks
        obtain ⟨m, _, rfl, -⟩ := hlost.first
        cases toks with
        | nil => cases front <;> cases htoks
        | cons t rest => exact ⟨t, rest, rfl⟩
      intro source' toks' htoks
      obtain ⟨t', rest', rfl⟩ := hnonempty htoks
      rcases append_eq_append_cons hat with ⟨d, hd⟩ | ⟨b, rfl, hb⟩
      · obtain ⟨e, he⟩ := hform.stopsAt hlost hend hd source' _ htoks
        refine ⟨e, ?_⟩
        rw [segments, he]
        rfl
      · rw [List.append_assoc] at htoks
        obtain ⟨p, hp, -, hlexemes⟩ := hread source' _ _ htoks
        obtain ⟨e, he⟩ := ih first hlater hb source' p.rest hlexemes
        refine ⟨e, ?_⟩
        rw [segments, hp]
        show (segments source' p.rest >>= _) = _
        rw [he]
        rfl

theorem IsQuery.stopsAt (h : IsQuery (before ++ .mark .current :: rest)) (hlost : IsLost path)
    (hend : Ends 3 after) : StopsAt path after start before := by
  obtain ⟨source', toks', ss, hat, h⟩ := h
  unfold start at h
  split at h
  · obtain ⟨b, rfl, hb⟩ := exists_behind hat (by simp)
    intro source toks htoks
    obtain ⟨_, _, behind, rfl, hbehind⟩ := exists_of_lexemes htoks
    obtain ⟨e, he⟩ := segments_stopsAt source' hlost hend h hb source behind hbehind
    exact ⟨e, he⟩
  · obtain ⟨b, rfl, hb⟩ := exists_behind hat (by simp)
    obtain ⟨more, hmore, -⟩ := ok_of_bind h
    intro source toks htoks
    obtain ⟨_, _, behind, rfl, hbehind⟩ := exists_of_lexemes htoks
    obtain ⟨e, he⟩ := segments_stopsAt source' hlost hend hmore hb source behind hbehind
    refine ⟨e, ?_⟩
    rw [start, he]
    rfl
  · obtain ⟨b, rfl, -⟩ := exists_behind hat (by simp)
    have hstop := segments_stopsAt source' hlost hend h hat
    intro source toks htoks
    obtain ⟨_, _, behind, rfl, hbehind⟩ := exists_of_lexemes htoks
    exact hstop source _ htoks
  · cases toks' <;> cases h

end Segments

/-- A query fails at a filter path exactly if a path is lost where the lexemes before it begin
a query with a path in that place. -/
theorem start_filterPath_iff (hshort : AreShort (toks.map Token.lexeme)) :
    (∃ e, start source toks = .error (.filterPath e)) ↔
      LosesIn IsQuery (toks.map Token.lexeme) := by
  constructor
  · rintro ⟨e, he⟩
    exact ((start_fails source hshort _ he).resolve_left id).2
  · rintro ⟨before, path, after, more, hls, hlost, hend, hquery⟩
    exact hquery.stopsAt hlost hend source toks hls

end Conduit.Query
