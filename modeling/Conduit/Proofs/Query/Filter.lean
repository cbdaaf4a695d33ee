import Conduit.Proofs.Query.Condition
import Mathlib.Data.List.Forall2

/-!
# Reading a written filter

The lexemes of a condition are read into the filter that it stands for. The
rules for `||`, `&&` and `!` differ in what they would go on with, so what may
stand behind a condition depends on its rank: its lexemes are read by the rule
of its rank. Two lemmas carry the induction: what is read at some rank is read
at every lower one (`ReadsAt.loosen`), and parentheses turn the lowest rank into
an operand (`ReadsAt.paren`).

With what is said about scanning, a query with a filter is read into the
condition that it was written from, unless an index in it is too long.
-/

namespace Conduit.Query

variable {ls ls' rest : List Lexeme} {f g : Filter} {toks : List Token} (source : String)

/-! ## Ranks of rules -/

/-- What the rule of a rank would go on with. -/
def goesOn (rank : Nat) : Lexeme → Bool
  | .mark m =>
    m = .point || m = .openBracket || (rank ≤ 2 && (comparison? m).isSome) ||
      (rank ≤ 1 && m = .and) || (rank ≤ 0 && m = .or)
  | _ => false

/-- Behind these lexemes the rule of the rank stops. -/
def Ends (rank : Nat) (ls : List Lexeme) : Prop := ∀ l ∈ ls.head?, goesOn rank l = false

theorem Ends.mono {k r : Nat} (hkr : k ≤ r) (h : Ends k ls) : Ends r ls := by
  intro l hl
  have hk := h l hl
  cases l with
  | mark m =>
      simp only [goesOn, Bool.or_eq_false_iff, Bool.and_eq_false_iff, decide_eq_false_iff_not]
        at hk ⊢
      obtain ⟨⟨⟨⟨hpoint, hbracket⟩, hcompare⟩, hand⟩, hor⟩ := hk
      refine ⟨⟨⟨⟨hpoint, hbracket⟩, hcompare.imp_left ?_⟩, hand.imp_left ?_⟩, hor.imp_left ?_⟩ <;>
        omega
  | _ => rfl

theorem Ends.cons {rank : Nat} {l : Lexeme} (h : goesOn rank l = false) : Ends rank (l :: ls) := by
  rintro k hk
  cases hk
  exact h

/-- The rule for conditions of a rank. -/
def rule : Nat → (source : String) → Rule Filter
  | 0 => orFilter
  | 1 => andFilter
  | _ => unary

/-- The rule of the rank reads the lexemes as the filter. -/
def ReadsAt (rank : Nat) (ls : List Lexeme) (f : Filter) : Prop :=
  ∀ (source : String) (toks : List Token) (rest : List Lexeme),
    toks.map Token.lexeme = ls ++ rest → Ends rank rest → Leaves (rule rank source toks) f rest

/-! ## Connectives -/

/-- The mark between the conditions of a rank. -/
def connectiveMark : Nat → Mark
  | 0 => .or
  | _ => .and

/-- What several conditions of a rank become. -/
def connective : Nat → List Filter → Filter
  | 0 => .or
  | _ => .and

/-- The rule for the conditions of a rank that stand behind the first one. -/
def moreRule : Nat → (source : String) → (toks : List Token) →
    Except Error (List Filter × { rest : List Token // rest.length ≤ toks.length })
  | 0 => moreOr
  | _ => moreAnd

theorem moreRule_nil {k : Nat} (hk : k < 2) (hend : Ends k (toks.map Token.lexeme)) :
    moreRule k source toks = .ok ([], ⟨toks, Nat.le_refl _⟩) := by
  obtain rfl | rfl : k = 0 ∨ k = 1 := by omega
  · show moreOr source toks = _
    rw [moreOr.eq_def]
    split
    · exact absurd (hend (.mark .or) rfl) (by decide)
    · rfl
  · show moreAnd source toks = _
    rw [moreAnd.eq_def]
    split
    · exact absurd (hend (.mark .and) rfl) (by decide)
    · rfl

theorem rule_eq {k : Nat} (hk : k < 2) : rule k source toks =
    rule (k + 1) source toks >>= fun first => moreRule k source first.rest >>= fun more =>
      .ok ⟨join (connective k) first.value more.1, more.2.1,
        Nat.lt_of_le_of_lt more.2.2 first.shorter⟩ := by
  obtain rfl | rfl : k = 0 ∨ k = 1 := by omega
  · show orFilter source toks = _
    rw [orFilter]
    rfl
  · show andFilter source toks = _
    rw [andFilter]
    rfl

theorem moreRule_eq {k offset size : Nat} (hk : k < 2) :
    moreRule k source (⟨.mark (connectiveMark k), offset, size⟩ :: toks) =
      rule (k + 1) source toks >>= fun first => moreRule k source first.rest >>= fun more =>
        .ok (first.value :: more.1, ⟨more.2.1,
          Nat.le_trans more.2.2 (Nat.le_succ_of_le (Nat.le_of_lt first.shorter))⟩) := by
  obtain rfl | rfl : k = 0 ∨ k = 1 := by omega
  · show moreOr source (⟨.mark .or, offset, size⟩ :: toks) = _
    rw [moreOr]
    rfl
  · show moreAnd source (⟨.mark .and, offset, size⟩ :: toks) = _
    rw [moreAnd]
    rfl

section

variable {k : Nat} {p : Parsed Filter toks}
  {last : List Filter × { rest : List Token // rest.length ≤ p.rest.length }}

theorem moreRule_cons {offset size : Nat} (hk : k < 2) (hp : rule (k + 1) source toks = .ok p)
    (hlast : moreRule k source p.rest = .ok last) :
    moreRule k source (⟨.mark (connectiveMark k), offset, size⟩ :: toks) =
      .ok (p.value :: last.1, ⟨last.2.1,
        Nat.le_trans last.2.2 (Nat.le_succ_of_le (Nat.le_of_lt p.shorter))⟩) := by
  rw [moreRule_eq source hk, hp]
  show (moreRule k source p.rest >>= _) = _
  rw [hlast]
  rfl

theorem rule_eq_join (hk : k < 2) (hp : rule (k + 1) source toks = .ok p)
    (hlast : moreRule k source p.rest = .ok last) :
    rule k source toks = .ok ⟨join (connective k) p.value last.1, last.2.1,
      Nat.lt_of_le_of_lt last.2.2 p.shorter⟩ := by
  rw [rule_eq source hk, hp]
  show (moreRule k source p.rest >>= _) = _
  rw [hlast]
  rfl

end

/-- Operands behind the first one, each behind the mark of the connective. -/
def behind (m : Mark) (operands : List (List Lexeme)) : List Lexeme :=
  operands.flatMap (.mark m :: ·)

theorem behind_cons (m : Mark) (ls : List Lexeme) (more : List (List Lexeme)) :
    behind m (ls :: more) = .mark m :: (ls ++ behind m more) := rfl

/-- The rule of the next higher rank stops at the mark of this one. -/
theorem ends_behind {k : Nat} (hk : k < 2) (operands : List (List Lexeme)) (hend : Ends k rest) :
    Ends (k + 1) (behind (connectiveMark k) operands ++ rest) := by
  have hmark : goesOn (k + 1) (.mark (connectiveMark k)) = false := by
    obtain rfl | rfl : k = 0 ∨ k = 1 := by omega
    · rfl
    · rfl
  cases operands with
  | nil => exact hend.mono (Nat.le_succ k)
  | cons ls more => exact .cons hmark

theorem moreRule_behind {k : Nat} (hk : k < 2) {operands : List (List Lexeme × Filter)}
    (hoperands : ∀ o ∈ operands, ReadsAt (k + 1) o.1 o.2)
    (h : toks.map Token.lexeme = behind (connectiveMark k) (operands.map Prod.fst) ++ rest)
    (hend : Ends k rest) :
    ∃ after, moreRule k source toks = .ok (operands.map Prod.snd, after) ∧
      after.1.map Token.lexeme = rest := by
  induction operands generalizing toks with
  | nil =>
      have hrest : rest = toks.map Token.lexeme := h.symm
      subst hrest
      exact ⟨_, moreRule_nil source hk hend, rfl⟩
  | cons o more ih =>
      obtain ⟨ho, hmore⟩ := List.forall_mem_cons.mp hoperands
      rw [List.map_cons, behind_cons, List.cons_append, List.append_assoc] at h
      obtain ⟨_, _, after, rfl, hafter⟩ := exists_of_lexemes h
      obtain ⟨p, hp, hvalue, hlexemes⟩ := ho source after _ hafter (ends_behind hk _ hend)
      obtain ⟨last, hlast, hlastLexemes⟩ := ih hmore hlexemes
      refine ⟨⟨last.1, Nat.le_trans last.2 (Nat.le_succ_of_le (Nat.le_of_lt p.shorter))⟩, ?_,
        hlastLexemes⟩
      rw [moreRule_cons source hk hp hlast, List.map_cons, ← hvalue]

/-- Operands of the next higher rank, with the mark of the connective between them. -/
theorem ReadsAt.chain {k : Nat} (hk : k < 2) {operands : List (List Lexeme × Filter)}
    (h : ReadsAt (k + 1) ls f) (hoperands : ∀ o ∈ operands, ReadsAt (k + 1) o.1 o.2) :
    ReadsAt k (ls ++ behind (connectiveMark k) (operands.map Prod.fst))
      (join (connective k) f (operands.map Prod.snd)) := by
  intro source toks rest htoks hend
  rw [List.append_assoc] at htoks
  obtain ⟨p, hp, rfl, hlexemes⟩ := h source toks _ htoks (ends_behind hk _ hend)
  obtain ⟨last, hlast, hlastLexemes⟩ := moreRule_behind source hk hoperands hlexemes hend
  exact ⟨_, rule_eq_join source hk hp hlast, rfl, hlastLexemes⟩

theorem moreLexemes_eq (m : Mark) (needed : Nat) (more : List Condition) :
    moreLexemes m needed more = behind m (more.map fun c => enclosed needed c.rank c.lexemes) := by
  induction more with
  | nil => rfl
  | cons c rest ih => rw [moreLexemes, ih]; rfl

theorem filters_eq (more : List Condition) : filters more = more.map Condition.filter := by
  induction more with
  | nil => rfl
  | cons c rest ih => rw [filters, ih]; rfl

theorem ReadsAt.joined {k : Nat} (hk : k < 2) {more : List Condition} (h : ReadsAt (k + 1) ls f)
    (hmore : ∀ c ∈ more, ReadsAt (k + 1) (enclosed (k + 1) c.rank c.lexemes) c.filter) :
    ReadsAt k (ls ++ moreLexemes (connectiveMark k) (k + 1) more)
      (join (connective k) f (filters more)) := by
  have hoperands : ∀ o ∈ more.map fun c => (enclosed (k + 1) c.rank c.lexemes, c.filter),
      ReadsAt (k + 1) o.1 o.2 := List.forall_mem_map.mpr hmore
  have hread := h.chain hk hoperands
  rw [List.map_map, List.map_map] at hread
  rw [moreLexemes_eq, filters_eq]
  exact hread

/-- A rule reads what the rule of the next higher rank reads. -/
theorem ReadsAt.pred {k : Nat} (hk : k < 2) (h : ReadsAt (k + 1) ls f) : ReadsAt k ls f := by
  have hread := h.chain hk (List.forall_mem_nil _)
  rwa [List.map_nil, behind, List.flatMap_nil, List.append_nil] at hread

theorem ReadsAt.loosen {k r : Nat} (hkr : k ≤ r) (hr : r ≤ 2) (h : ReadsAt r ls f) :
    ReadsAt k ls f := by
  induction hkr with
  | refl => exact h
  | step _ ih => exact ih (Nat.le_of_succ_le hr) (h.pred hr)

theorem ReadsAt.not (h : ReadsAt 2 ls f) : ReadsAt 2 (.mark .not :: ls) (.not f) := by
  intro source toks rest htoks hend
  obtain ⟨_, _, after, rfl, hafter⟩ := exists_of_lexemes htoks
  obtain ⟨p, hp, rfl, hlexemes⟩ := h source after rest hafter hend
  have hp : unary source after = .ok p := hp
  refine ⟨(p.map Filter.not).from_ (Nat.le_succ _), ?_, rfl, hlexemes⟩
  show unary source _ = _
  rw [unary, hp]
  rfl

/-! ## Operands -/

/-- The lexemes are read as an operand; the flag says whether it is a path. -/
structure ReadsOperand (ls : List Lexeme) (v : Filter × Bool) : Prop where
  first : ∃ l more, ls = l :: more ∧ l ≠ .mark .not
  reads : ∀ (source : String) (toks : List Token) (rest : List Lexeme),
    toks.map Token.lexeme = ls ++ rest → Ends 3 rest → Leaves (operand source toks) v rest

/-- What begins with no `!` is left to the rule of comparisons. -/
theorem unary_eq {l : Lexeme} (h : toks.map Token.lexeme = l :: rest)
    (hl : l ≠ .mark .not) : unary source toks = comparison source toks := by
  obtain ⟨_, _, after, rfl, _⟩ := exists_of_lexemes h
  rw [unary]
  rintro offset size rest ⟨⟩
  exact hl rfl

theorem ReadsOperand.unary_eq {v : Filter × Bool} (h : ReadsOperand ls v)
    (htoks : toks.map Token.lexeme = ls ++ rest) : unary source toks = comparison source toks := by
  obtain ⟨l, more, rfl, hl⟩ := h.first
  exact Query.unary_eq source htoks hl

theorem ReadsOperand.alone {bare : Bool} (h : ReadsOperand ls (f, bare)) :
    ReadsAt 2 ls (if bare then standalone f else f) := by
  intro source toks rest htoks hend
  obtain ⟨p, hp, hvalue, hlexemes⟩ := h.reads source toks rest htoks (hend.mono (by decide))
  have hleft : (p.map fun p => if p.2 then standalone p.1 else p.1).value =
      if bare then standalone f else f := by
    rw [Parsed.map, hvalue]
  show Leaves (unary source toks) _ _
  rw [h.unary_eq source htoks, comparison, hp]
  dsimp only [bind, Except.bind]
  split
  · next m _ _ after hrest =>
      have hmark : goesOn 2 (.mark m) = false := by
        rw [hrest] at hlexemes
        exact hend (.mark m) (by rw [← hlexemes]; rfl)
      split
      · next op hop => simp [goesOn, hop] at hmark
      · exact ⟨_, rfl, hleft, hlexemes⟩
  · exact ⟨_, rfl, hleft, hlexemes⟩

theorem ReadsOperand.compare {x y : Bool} (op : Comparison) (h : ReadsOperand ls (f, x))
    (h' : ReadsOperand ls' (g, y)) :
    ReadsAt 2 (ls ++ .mark (comparisonMark op) :: ls') (.compare op f g) := by
  intro source toks rest htoks hend
  rw [List.append_assoc] at htoks
  have hbehind : Ends 3 (.mark (comparisonMark op) :: (ls' ++ rest)) := by
    cases op <;> exact .cons (by decide)
  have hop : comparison? (comparisonMark op) = some op := by cases op <;> rfl
  obtain ⟨p, hp, hvalue, hlexemes⟩ := h.reads source toks _ htoks hbehind
  obtain ⟨_, _, after, hrest, hafter⟩ := exists_of_lexemes hlexemes
  obtain ⟨q, hq, hvalue', hlexemes'⟩ := h'.reads source after rest hafter (hend.mono (by decide))
  show Leaves (unary source toks) _ _
  rw [h.unary_eq source htoks, comparison, hp]
  dsimp only [bind, Except.bind]
  split
  · next m _ _ after' hrest' =>
      obtain ⟨rfl, rfl⟩ : m = comparisonMark op ∧ after' = after := by
        rw [hrest] at hrest'
        cases hrest'
        exact ⟨rfl, rfl⟩
      simp only [hop, hq]
      exact ⟨_, rfl, by rw [hvalue, hvalue'], hlexemes'⟩
  · next hne => exact absurd hrest (hne _ _ _ _)

theorem expect_written {m : Mark} (what : String) (h : toks.map Token.lexeme = .mark m :: rest) :
    Leaves (expect source m what toks) () rest := by
  obtain ⟨_, _, after, rfl, hafter⟩ := exists_of_lexemes h
  refine ⟨⟨(), after, Nat.lt_succ_self _⟩, ?_, rfl, hafter⟩
  rw [expect, if_pos rfl]

theorem ReadsAt.paren (h : ReadsAt 0 ls f) : ReadsOperand (parenthesized ls) (f, false) := by
  refine ⟨⟨_, _, rfl, by simp⟩, ?_⟩
  intro source toks rest htoks hend
  rw [parenthesized, List.cons_append, List.append_assoc] at htoks
  obtain ⟨_, _, after, rfl, hafter⟩ := exists_of_lexemes htoks
  obtain ⟨p, hp, rfl, hlexemes⟩ := h source after _ hafter (.cons (by decide))
  obtain ⟨close, hclose, -, hlast⟩ := expect_written source "')'" hlexemes
  have hp : orFilter source after = .ok p := hp
  refine ⟨⟨(p.value, false), close.rest, Nat.lt_succ_of_lt
    (Nat.lt_trans close.shorter p.shorter)⟩, ?_, rfl, hlast⟩
  rw [operand, hp]
  show (expect source .closeParen "')'" p.rest >>= _) = _
  rw [hclose]
  rfl

/-- Parentheses stand where an operand would be read by a rule of a lower rank
than the one that is called. -/
theorem ReadsAt.enclosed {rank : Nat} (needed : Nat) (hneeded : needed ≤ 2) (hrank : rank ≤ 2)
    (h : ReadsAt rank ls f) : ReadsAt needed (enclosed needed rank ls) f := by
  rw [Query.enclosed]
  split
  · have hread := (h.loosen (Nat.zero_le rank) hrank).paren.alone
    exact hread.loosen hneeded (Nat.le_refl 2)
  · next hle => exact h.loosen (Nat.not_lt.mp hle) hrank

/-! ## Constants and paths -/

/-- What is no parenthesis is left to the rule of plain operands. -/
theorem operand_eq {l : Lexeme} (h : toks.map Token.lexeme = l :: rest)
    (hl : l ≠ .mark .openParen) : operand source toks = plainOperand source toks := by
  obtain ⟨_, _, after, rfl, _⟩ := exists_of_lexemes h
  rw [operand]
  rintro offset size rest ⟨⟩
  exact hl rfl

theorem Constant.reads (a : Constant) : ReadsOperand [a.lexeme] (.literal a.value, false) := by
  refine ⟨⟨_, [], rfl, ?_⟩, ?_⟩
  · cases a with
    | bool b => cases b <;> simp [Constant.lexeme]
    | _ => simp [Constant.lexeme]
  · intro source toks rest htoks hend
    rw [operand_eq source htoks]
    · obtain ⟨_, _, after, rfl, hafter⟩ := exists_of_lexemes htoks
      cases a with
      | bool b => cases b <;> exact ⟨_, rfl, rfl, hafter⟩
      | _ => exact ⟨_, rfl, rfl, hafter⟩
    · cases a with
      | bool b => cases b <;> simp [Constant.lexeme]
      | _ => simp [Constant.lexeme]

theorem pathStep_written {s : Step} (h : toks.map Token.lexeme = stepLexemes s ++ rest) :
    ∃ p, pathStep source toks = .ok (some p) ∧ p.value = s ∧ p.rest.map Token.lexeme = rest := by
  obtain ⟨_, _, behindOpen, rfl, hopen⟩ := exists_of_lexemes h
  obtain ⟨_, _, behindKey, rfl, hkey⟩ := exists_of_lexemes hopen
  obtain ⟨_, _, behindClose, rfl, hclose⟩ := exists_of_lexemes hkey
  cases s <;> exact ⟨_, rfl, rfl, hclose⟩

theorem pathStep_none (hend : Ends 3 (toks.map Token.lexeme)) :
    pathStep source toks = .ok none := by
  unfold pathStep
  split
  · exact absurd (hend (.mark .point) rfl) (by decide)
  · exact absurd (hend (.mark .openBracket) rfl) (by decide)
  · rfl

theorem pathSteps_written {steps : List Step}
    (h : toks.map Token.lexeme = steps.flatMap stepLexemes ++ rest) (hend : Ends 3 rest) :
    ∃ after, pathSteps source toks = .ok (steps, after) ∧ after.1.map Token.lexeme = rest := by
  induction steps generalizing toks with
  | nil =>
      have hrest : rest = toks.map Token.lexeme := h.symm
      subst hrest
      rw [pathSteps, pathStep_none source hend]
      exact ⟨_, rfl, rfl⟩
  | cons s more ih =>
      rw [List.flatMap_cons, List.append_assoc] at h
      obtain ⟨p, hp, rfl, hlexemes⟩ := pathStep_written source h
      obtain ⟨last, hlast, hlastLexemes⟩ := ih hlexemes
      refine ⟨⟨last.1, Nat.le_trans last.2 (Nat.le_of_lt p.shorter)⟩, ?_, hlastLexemes⟩
      rw [pathSteps, hp]
      show (pathSteps source p.rest >>= _) = _
      rw [hlast]
      rfl

theorem Place.steps_eq (p : Place) : p.steps = .field p.head :: p.below := by
  cases p <;> rfl

theorem Place.IsWritable.below {p : Place} (h : p.IsWritable) : ∀ s ∈ p.below, s.IsShort := by
  intro s hs
  have hmem : s ∈ p.steps := by
    rw [p.steps_eq]
    exact List.mem_cons_of_mem _ hs
  exact (h s hmem).1

/-- The text of a place is read into its steps. -/
theorem Place.parse_eq_path {p : Place} (h : p.IsWritable) : DotPath.parse p.text = .ok p.path := by
  refine (DotPath.parse_written_iff h.below (by rw [Place.text, String.toList_ofList])).mpr ?_
  intro s hs
  rw [← p.steps_eq] at hs
  exact (h s hs).2

theorem filterPath_steps {p : Place} (h : p.IsWritable) : filterPath p.steps = .ok p.path := by
  have hparse : DotPath.parse (String.ofList ((Step.field p.head).written true ++
      DotPath.writtenSteps p.below)) = .ok p.path := Place.parse_eq_path h
  rw [filterPath, p.steps_eq, DotPath.format_eq h.below]
  dsimp only
  rw [hparse]

theorem relativePath_written {p : Place} (h : p.IsWritable) (atCandidate : Bool)
    {steps : List Step} (hsteps : (if atCandidate then .field "@" :: steps else steps) = p.steps)
    (htoks : toks.map Token.lexeme = steps.flatMap stepLexemes ++ rest) (hend : Ends 3 rest) :
    ∃ after, relativePath source atCandidate toks = .ok (p.path, after) ∧
      after.1.map Token.lexeme = rest := by
  obtain ⟨after, hafter, hlexemes⟩ := pathSteps_written source htoks hend
  have hpath := filterPath_steps h
  refine ⟨after, ?_, hlexemes⟩
  rw [relativePath, hafter]
  dsimp only [bind, Except.bind]
  rw [hsteps]
  rw [p.steps_eq] at hpath ⊢
  dsimp only
  rw [hpath]

theorem Place.reads {p : Place} (h : p.IsWritable) :
    ReadsOperand p.lexemes (.path p.path, true) := by
  cases p with
  | candidate steps =>
      refine ⟨⟨_, _, rfl, by simp⟩, ?_⟩
      intro source toks rest htoks hend
      rw [operand_eq source htoks (by simp)]
      obtain ⟨_, _, behind, rfl, hbehind⟩ := exists_of_lexemes htoks
      obtain ⟨after, hafter, hlexemes⟩ := relativePath_written source h true rfl hbehind hend
      refine ⟨⟨_, after.1, Nat.lt_succ_of_le after.2⟩, ?_, rfl, hlexemes⟩
      rw [plainOperand, hafter]
      rfl
  | root head more =>
      refine ⟨⟨_, _, rfl, by simp⟩, ?_⟩
      intro source toks rest htoks hend
      rw [operand_eq source htoks (by simp)]
      obtain ⟨_, _, behind, rfl, hbehind⟩ := exists_of_lexemes htoks
      obtain ⟨after, hafter, hlexemes⟩ := relativePath_written source h false rfl hbehind hend
      refine ⟨⟨_, after.1, Nat.lt_succ_of_le after.2⟩, ?_, rfl, hlexemes⟩
      rw [plainOperand, hafter]
      rfl

/-! ## Conditions -/

theorem Condition.rank_le (c : Condition) : c.rank ≤ 2 := by
  cases c <;> simp [Condition.rank]

theorem join_filters (connective : List Filter → Filter) (f : Filter) {more : List Condition}
    (h : more ≠ []) : join connective f (filters more) = connective (f :: filters more) := by
  obtain ⟨c, rest, rfl⟩ := List.exists_cons_of_ne_nil h
  rfl

mutual

/-- The lexemes of a condition are read by the rule of its rank. -/
theorem Condition.reads : ∀ c : Condition, c.IsWritable → ReadsAt c.rank c.lexemes c.filter
  | .or first more, h => by
      have hfirst := (first.reads h.2.1).enclosed 1 (by decide) first.rank_le
      have hread := hfirst.joined (k := 0) (by decide) (reads_more 1 (by decide) more h.2.2)
      rwa [join_filters _ _ h.1] at hread
  | .and first more, h => by
      have hfirst := (first.reads h.2.1).enclosed 2 (by decide) first.rank_le
      have hread := hfirst.joined (k := 1) (by decide) (reads_more 2 (by decide) more h.2.2)
      rwa [join_filters _ _ h.1] at hread
  | .not operand, h => ((operand.reads h).enclosed 2 (by decide) operand.rank_le).not
  | .compare op left right, h => by
      obtain ⟨x, hleft⟩ := left.reads h.1
      obtain ⟨y, hright⟩ := right.reads h.2
      exact hleft.compare op hright
  | .present p, h => (Place.reads h).alone
  | .literal a, _ => a.reads.alone

theorem Operand.reads : ∀ o : Operand, o.IsWritable →
    ∃ bare, ReadsOperand o.lexemes (o.filter, bare)
  | .constant a, _ => ⟨false, a.reads⟩
  | .path _, h => ⟨true, Place.reads h⟩
  | .group c, h => ⟨false, ((c.reads h).loosen (Nat.zero_le _) c.rank_le).paren⟩

theorem reads_more (needed : Nat) (hneeded : needed ≤ 2) : ∀ cs : List Condition, AreWritable cs →
    ∀ c ∈ cs, ReadsAt needed (enclosed needed c.rank c.lexemes) c.filter
  | [], _ => List.forall_mem_nil _
  | c :: rest, h => List.forall_mem_cons.mpr
      ⟨(c.reads h.1).enclosed needed hneeded c.rank_le, reads_more needed hneeded rest h.2⟩

end

mutual

theorem Condition.ofFilter : ∀ c : Condition, Expr.ofFilter c.filter = c.model
  | .or first more => by
      show Expr.or (Expr.ofFilter first.filter :: Expr.ofFilters (filters more)) = _
      rw [first.ofFilter, ofFilters_filters more]
      rfl
  | .and first more => by
      show Expr.and (Expr.ofFilter first.filter :: Expr.ofFilters (filters more)) = _
      rw [first.ofFilter, ofFilters_filters more]
      rfl
  | .not operand => congrArg Expr.not operand.ofFilter
  | .compare op left right => by
      show Expr.compare op (Expr.ofFilter left.filter) (Expr.ofFilter right.filter) = _
      rw [left.ofFilter, right.ofFilter]
      rfl
  | .present _ => rfl
  | .literal _ => rfl

theorem Operand.ofFilter : ∀ o : Operand, Expr.ofFilter o.filter = o.model
  | .constant _ => rfl
  | .path _ => rfl
  | .group c => c.ofFilter

theorem ofFilters_filters : ∀ cs : List Condition, Expr.ofFilters (filters cs) = models cs
  | [] => rfl
  | c :: rest => by
      show Expr.ofFilter c.filter :: Expr.ofFilters (filters rest) = _
      rw [c.ofFilter, ofFilters_filters rest]
      rfl

end

mutual

theorem Condition.paths_filter : ∀ c : Condition, c.filter.paths = c.places.map Place.path
  | .or first more => by
      show first.filter.paths ++ Filter.pathsAll (filters more) = _
      rw [first.paths_filter, paths_filters more, ← List.map_append]
      rfl
  | .and first more => by
      show first.filter.paths ++ Filter.pathsAll (filters more) = _
      rw [first.paths_filter, paths_filters more, ← List.map_append]
      rfl
  | .not operand => operand.paths_filter
  | .compare _ left right => by
      show left.filter.paths ++ right.filter.paths = _
      rw [left.paths_filter, right.paths_filter, ← List.map_append]
      rfl
  | .present _ => rfl
  | .literal _ => rfl

theorem Operand.paths_filter : ∀ o : Operand, o.filter.paths = o.places.map Place.path
  | .constant _ => rfl
  | .path _ => rfl
  | .group c => c.paths_filter

theorem paths_filters : ∀ cs : List Condition,
    Filter.pathsAll (filters cs) = (allPlaces cs).map Place.path
  | [] => rfl
  | c :: rest => by
      show c.filter.paths ++ Filter.pathsAll (filters rest) = _
      rw [c.paths_filter, paths_filters rest, ← List.map_append]
      rfl

end

mutual

theorem Condition.places_writable : ∀ c : Condition, c.IsWritable → ∀ p ∈ c.places, p.IsWritable
  | .or first more, h => List.forall_mem_append.mpr
      ⟨first.places_writable h.2.1, allPlaces_writable more h.2.2⟩
  | .and first more, h => List.forall_mem_append.mpr
      ⟨first.places_writable h.2.1, allPlaces_writable more h.2.2⟩
  | .not operand, h => operand.places_writable h
  | .compare _ left right, h => List.forall_mem_append.mpr
      ⟨left.places_writable h.1, right.places_writable h.2⟩
  | .present _, h => List.forall_mem_singleton.mpr h
  | .literal _, _ => List.forall_mem_nil _

theorem Operand.places_writable : ∀ o : Operand, o.IsWritable → ∀ p ∈ o.places, p.IsWritable
  | .constant _, _ => List.forall_mem_nil _
  | .path _, h => List.forall_mem_singleton.mpr h
  | .group c, h => c.places_writable h

theorem allPlaces_writable : ∀ cs : List Condition, AreWritable cs →
    ∀ p ∈ allPlaces cs, p.IsWritable
  | [], _ => List.forall_mem_nil _
  | c :: rest, h => List.forall_mem_append.mpr
      ⟨c.places_writable h.1, allPlaces_writable rest h.2⟩

end

/-! ## Queries -/

theorem queryText_toList (spaces : Nat) (c : Condition) : (c.queryText spaces).toList =
    '$' :: '[' :: '?' :: '(' :: (c.lexemes.flatMap (spell spaces) ++ [')', ']']) := by
  simp [Condition.queryText, Condition.text]

theorem scans_queryText (spaces : Nat) {c : Condition} (h : c.IsWritable) :
    Scans (c.queryText spaces).toList (.mark .root :: .mark .openBracket :: .mark .question ::
      .mark .openParen :: (c.lexemes ++ [.mark .closeParen, .mark .closeBracket])) := by
  have hclose : Scans [')', ']'] [.mark .closeParen, .mark .closeBracket] :=
    (Scans.nil.mark (m := .closeBracket) rfl).mark (m := .closeParen) rfl
  obtain ⟨hscan, _⟩ := c.spelt spaces h _ _ (.cons (by decide +kernel)) hclose
  rw [queryText_toList]
  have hopen := hscan.mark (m := .openParen) rfl
  exact ((hopen.mark (m := .question) rfl).mark (m := .openBracket) rfl).mark (m := .root) rfl

theorem contents_filter (h : ReadsAt 0 ls f)
    (htoks : toks.map Token.lexeme = .mark .question :: .mark .openParen ::
      (ls ++ .mark .closeParen :: rest)) :
    Leaves (contents source toks) (.filter f) rest := by
  obtain ⟨_, _, after, rfl, hafter⟩ := exists_of_lexemes htoks
  obtain ⟨opening, hopening, -, hinner⟩ := expect_written source "'(' after '?'" hafter
  obtain ⟨p, hp, rfl, hlexemes⟩ := h source opening.rest _ hinner (.cons (by decide))
  have hp : orFilter source opening.rest = .ok p := hp
  obtain ⟨close, hclose, -, hlast⟩ := expect_written source "')'" hlexemes
  refine ⟨⟨.filter p.value, close.rest, Nat.lt_succ_of_lt (Nat.lt_trans close.shorter
    (Nat.lt_trans p.shorter opening.shorter))⟩, ?_, rfl, hlast⟩
  rw [contents, hopening]
  show (orFilter source opening.rest >>= _) = _
  rw [hp]
  show (expect source .closeParen "')'" p.rest >>= _) = _
  rw [hclose]
  rfl

theorem segments_filter (h : ReadsAt 0 ls f)
    (htoks : toks.map Token.lexeme = .mark .openBracket :: .mark .question :: .mark .openParen ::
      (ls ++ [.mark .closeParen, .mark .closeBracket])) :
    segments source toks = .ok [.filter f] := by
  obtain ⟨_, _, after, rfl, hafter⟩ := exists_of_lexemes htoks
  obtain ⟨inner, hinner, hvalue, hlexemes⟩ := contents_filter source h hafter
  obtain ⟨close, hclose, -, hlast⟩ := expect_written source "']'" hlexemes
  rw [segments, segment, bracket, hinner]
  show ((expect source .closeBracket "']'" inner.rest >>= _) >>= _) >>= _ = _
  rw [hclose]
  have hnil : segments source close.rest = .ok [] := by
    rw [List.map_eq_nil_iff.mp hlast, segments]
  show segments source close.rest >>= _ = _
  rw [hnil, ← hvalue]
  rfl

theorem segments_condition {c : Condition} (h : c.IsWritable)
    (htoks : toks.map Token.lexeme = .mark .openBracket :: .mark .question :: .mark .openParen ::
      (c.lexemes ++ [.mark .closeParen, .mark .closeBracket])) :
    segments source toks = .ok [.filter c.filter] :=
  segments_filter source ((c.reads h).loosen (Nat.zero_le _) c.rank_le) htoks

/-- A condition that is written as a filter of a query, with any number of
spaces around the marks between operands, is read into one filter, which is
decided by the expression that the condition stands for. Each path in it comes
from one place of the condition, in order, and is read again from its text,
into the steps of that place. -/
theorem parse_queryText (spaces : Nat) {c : Condition} (h : c.IsWritable) :
    ∃ f, parse (c.queryText spaces) = .ok [.filter f] ∧ Expr.ofFilter f = c.model ∧
      List.Forall₂ (fun path place => DotPath.parse path.text = .ok path ∧
        path.steps = place.steps) f.paths c.places := by
  refine ⟨c.filter, ?_, c.ofFilter, ?_⟩
  · obtain ⟨toks, htoks, hlexemes⟩ := scans_queryText spaces h (c.queryText spaces)
      ((c.queryText spaces).length + 1) 0 (by rw [String.length_toList]; exact Nat.lt_succ_self _)
    obtain ⟨_, _, rest, rfl, hrest⟩ := exists_of_lexemes hlexemes
    have hblank : ((c.queryText spaces).toList.all Text.isBlank) = false := by
      rw [queryText_toList]
      rfl
    rw [parse, hblank, scan, htoks]
    exact segments_condition _ h hrest
  · rw [c.paths_filter, List.forall₂_map_left_iff, List.forall₂_same]
    intro p hp
    exact ⟨Place.parse_eq_path (c.places_writable h p hp), p.steps_eq.symm⟩

/-- An operand of each kind, and parentheses of each kind. -/
def reviewCondition : Condition :=
  .and
    (.or (.compare .gte (.path (.candidate [.field "it's", .index (-1)])) (.constant (.integer 3)))
      [.or (.present (.root "owner" [.field "id"])) [.literal (.bool false)],
        .and (.not (.not (.present (.candidate [])))) [.literal .null]])
    [.not (.and (.literal (.string "a\\")) [.present (.candidate [.field "x"])]),
      .compare .ne (.group (.compare .lt (.constant (.bool true)) (.constant .null)))
        (.group (.literal (.integer 0)))]

theorem parse_queryText_review :
    reviewCondition.queryText 1 =
        "$[?((@['it\\'s'][-1] >= 3 || ($['owner']['id'] || false) || !!@ && null) && " ++
          "!('a\\\\' && @['x']) && (true < null) != (0))]" ∧
      reviewCondition.IsWritable ∧
      ∃ f, parse (reviewCondition.queryText 1) = .ok [.filter f] ∧
        Expr.ofFilter f = reviewCondition.model ∧
        List.Forall₂ (fun path place => DotPath.parse path.text = .ok path ∧
          path.steps = place.steps) f.paths reviewCondition.places := by
  have hshort : ∀ i ∈ [3, -1, 0], Text.IsShort i := by
    simp only [Text.isShort_iff]
    decide
  have hwritable : reviewCondition.IsWritable := by
    simp only [List.forall_mem_cons] at hshort
    simp [reviewCondition, Condition.IsWritable, AreWritable, Operand.IsWritable,
      Constant.IsWritable, Place.IsWritable, Place.steps, Step.IsShort, Step.IsRecoverable, hshort]
  exact ⟨by decide +kernel, hwritable, parse_queryText 1 hwritable⟩

/-! ### Indices that are too long -/

/-- A filter is not read if an index in it has too many digits. -/
theorem parse_longIndex (spaces : Nat) {i : Int} (h : ¬Text.IsShort i) :
    parse ((Condition.present (.candidate [.index i])).queryText spaces) =
      .error (.limit (.longNumeral (Nat.toDigits 10 i.natAbs).length)) := by
  have hcs : Overruns ((toString i).toList ++ [']', ')', ']'])
      (.longNumeral (Nat.toDigits 10 i.natAbs).length) := .integer h (.cons (by decide))
  have hopen := ((hcs.mark (m := .openBracket) rfl).mark (m := .current) rfl).mark
    (m := .openParen) rfl
  have hstart := ((hopen.mark (m := .question) rfl).mark (m := .openBracket) rfl).mark
    (m := .root) rfl
  have htext : ((Condition.present (.candidate [.index i])).queryText spaces).toList =
      '$' :: '[' :: '?' :: '(' :: '@' :: '[' :: ((toString i).toList ++ [']', ')', ']']) := by
    rw [queryText_toList, Condition.lexemes, Place.lexemes]
    simp [stepLexemes, keyLexeme, spell, Mark.isBinary, comparison?, Mark.text, Lexeme.display]
  have hblank : (((Condition.present (.candidate [.index i])).queryText spaces).toList.all
      Text.isBlank) = false := by
    rw [htext]
    rfl
  have hoverrun : Overruns ((Condition.present (.candidate [.index i])).queryText spaces).toList
      (.longNumeral (Nat.toDigits 10 i.natAbs).length) := by
    rw [htext]
    exact hstart
  rw [parse, hblank, scan, hoverrun _ _ _ (by rw [String.length_toList]; exact Nat.lt_succ_self _)]
  rfl

theorem length_toDigits_pow (k : Nat) : (Nat.toDigits 10 (Nat.pow 10 k)).length = k + 1 := by
  have hle : (Nat.toDigits 10 (Nat.pow 10 k)).length ≤ k + 1 :=
    (Nat.length_toDigits_le_iff (by decide) (by omega)).mpr
      (Nat.pow_lt_pow_right (by decide) (by omega))
  have hgt : ¬(Nat.toDigits 10 (Nat.pow 10 k)).length ≤ k := by
    intro h
    rcases Nat.eq_zero_or_pos k with rfl | hpos
    · simp at h
    · have hlt := (Nat.length_toDigits_le_iff (by decide) hpos).mp h
      exact Nat.lt_irrefl _ hlt
  omega

/-- The condition that the candidate has an element whose index is one digit
too long. -/
def farCondition : Condition := .present (.candidate [.index (Nat.pow 10 Limit.numeralDigits)])

theorem parse_farCondition :
    parse (farCondition.queryText 0) = .error (.limit (.longNumeral (Limit.numeralDigits + 1))) ∧
      ¬∃ f, parse (farCondition.queryText 0) = .ok [.filter f] := by
  have hlong : ¬Text.IsShort (Nat.pow 10 Limit.numeralDigits) := by
    rw [Text.isShort_iff, Int.natAbs_natCast, length_toDigits_pow]
    exact Nat.not_succ_le_self _
  have herror : parse (farCondition.queryText 0) =
      .error (.limit (.longNumeral (Limit.numeralDigits + 1))) := by
    rw [farCondition, parse_longIndex 0 hlong, Int.natAbs_natCast, length_toDigits_pow]
  refine ⟨herror, ?_⟩
  rintro ⟨f, hf⟩
  rw [herror] at hf
  cases hf

end Conduit.Query
