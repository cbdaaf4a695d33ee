import Conduit.Proofs.Query.Cut
import Conduit.Proofs.Query.Filter

/-!
# Filters as they are written

A phrase is a filter with the parentheses that it is written with: operands, comparisons,
negations, and chains of operands with the mark of one connective between them. The
rules of the grammar read a text exactly when it is that of a phrase, and what they
read is what the phrase says.
-/

namespace Conduit.Query

/-! ## Phrases -/

/-- A filter as it is written. -/
inductive Phrase where
  /-- An operand without parentheses, with what it is read as; `bare` says whether it is
  a path. -/
  | plain (ls : List Lexeme) (f : Filter) (bare : Bool)
  /-- A phrase in parentheses. -/
  | group (inner : Phrase)
  | compare (op : Comparison) (left right : Phrase)
  | not (operand : Phrase)
  /-- Two operands or more, with the mark of the connective of rank `k` between them. -/
  | chain (k : Nat) (first : Phrase) (more : List Phrase)

namespace Phrase

mutual

def lexemes : Phrase → List Lexeme
  | plain ls _ _ => ls
  | group inner => parenthesized inner.lexemes
  | compare op left right => left.lexemes ++ .mark (comparisonMark op) :: right.lexemes
  | not operand => .mark .not :: operand.lexemes
  | chain k first more => first.lexemes ++ behind (connectiveMark k) (allLexemes more)

def allLexemes : List Phrase → List (List Lexeme)
  | [] => []
  | p :: rest => p.lexemes :: allLexemes rest

end

mutual

/-- What a phrase is read as, as a condition or as a side of a comparison. -/
def meaning (side : Bool) : Phrase → Filter
  | plain _ f bare => if bare && !side then standalone f else f
  | group inner => meaning false inner
  | compare op left right => .compare op (meaning true left) (meaning true right)
  | not operand => .not (meaning false operand)
  | chain k first more => connective k (meaning false first :: meanings more)

def meanings : List Phrase → List Filter
  | [] => []
  | p :: rest => meaning false p :: meanings rest

end

/-- The filter that a phrase stands for. -/
def filter (p : Phrase) : Filter := p.meaning false

theorem allLexemes_eq (ps : List Phrase) : allLexemes ps = ps.map lexemes := by
  induction ps with
  | nil => rfl
  | cons p rest ih => rw [allLexemes, ih]; rfl

theorem meanings_eq (ps : List Phrase) : meanings ps = ps.map filter := by
  induction ps with
  | nil => rfl
  | cons p rest ih => rw [meanings, ih]; rfl

/-- How tightly the outermost part of a phrase binds. -/
def rank : Phrase → Nat
  | plain _ _ _ => 3
  | group _ => 3
  | compare _ _ _ => 2
  | not _ => 2
  | chain k _ _ => k

/-- A path without parentheses around it. -/
def isBare : Phrase → Bool
  | plain _ _ bare => bare
  | _ => false

end Phrase

/-- The lexemes are read as an operand without parentheses, in whatever source. -/
structure ReadsPlain (ls : List Lexeme) (v : Filter × Bool) : Prop where
  first : ∃ l more, ls = l :: more ∧ l ≠ .mark .not ∧ l ≠ .mark .openParen
  reads : ∀ (source : String) (toks : List Token) (rest : List Lexeme),
    toks.map Token.lexeme = ls ++ rest → Ends 3 rest → Leaves (plainOperand source toks) v rest

namespace Phrase

/-- The phrases of the grammar: each operand binds tightly enough for where it
stands. -/
inductive IsGrammatical : Phrase → Prop where
  | plain {ls : List Lexeme} {f : Filter} {bare : Bool} (h : ReadsPlain ls (f, bare)) :
    IsGrammatical (plain ls f bare)
  | group {inner : Phrase} (h : inner.IsGrammatical) : IsGrammatical (group inner)
  | compare {op : Comparison} {left right : Phrase} (hl : left.IsGrammatical)
      (hr : right.IsGrammatical) (hleft : left.rank = 3) (hright : right.rank = 3) :
    IsGrammatical (compare op left right)
  | not {operand : Phrase} (h : operand.IsGrammatical) (hrank : 2 ≤ operand.rank) :
    IsGrammatical (not operand)
  | chain {k : Nat} {first : Phrase} {more : List Phrase} (hk : k < 2) (hmore : more ≠ [])
      (h : ∀ p ∈ first :: more, p.IsGrammatical) (hrank : ∀ p ∈ first :: more, k < p.rank) :
    IsGrammatical (chain k first more)

variable {p : Phrase}

/-! ## What is read from a phrase -/

theorem readsOperand_of_plain {ls : List Lexeme} {v : Filter × Bool} (h : ReadsPlain ls v) :
    ReadsOperand ls v := by
  obtain ⟨l, more, rfl, hnot, hparen⟩ := h.first
  refine ⟨⟨l, more, rfl, hnot⟩, fun source toks rest htoks hend => ?_⟩
  rw [operand_eq source htoks hparen]
  exact h.reads source toks rest htoks hend

/-- Only a path without parentheses has two meanings. -/
theorem meaning_eq_filter (side : Bool) (hp : p.isBare = false) : p.meaning side = p.filter := by
  cases p with
  | plain ls f bare =>
      cases hp
      rfl
  | _ => simp only [filter, meaning]

theorem filter_eq (p : Phrase) :
    p.filter = if p.isBare then standalone (p.meaning true) else p.meaning true := by
  cases hp : p.isBare with
  | false => exact (meaning_eq_filter true hp).symm
  | true =>
      cases p with
      | plain ls f bare =>
          cases hp
          rfl
      | _ => cases hp

/-- A phrase is read by the rule of its rank, and as an operand if it is one. -/
theorem IsGrammatical.reads (h : p.IsGrammatical) :
    (∀ k ≤ p.rank, k ≤ 2 → ReadsAt k p.lexemes p.filter) ∧
      (p.rank = 3 → ReadsOperand p.lexemes (p.meaning true, p.isBare)) := by
  have halone : ∀ {p : Phrase}, p.rank = 3 → ReadsOperand p.lexemes (p.meaning true, p.isBare) →
      (∀ k ≤ p.rank, k ≤ 2 → ReadsAt k p.lexemes p.filter) ∧
        (p.rank = 3 → ReadsOperand p.lexemes (p.meaning true, p.isBare)) := by
    intro p hp hread
    have hcondition := hread.alone
    rw [← filter_eq] at hcondition
    exact ⟨fun k _ hk => hcondition.loosen hk (Nat.le_refl 2), fun _ => hread⟩
  -- Operands go by `halone`; what is no operand has a rank of at most two.
  induction h with
  | @plain ls f bare h =>
      refine halone rfl ?_
      have hmeaning : (Phrase.plain ls f bare).meaning true = f := by simp [meaning]
      rw [hmeaning, lexemes]
      exact readsOperand_of_plain h
  | @group inner h ih => exact halone rfl (ih.1 0 (Nat.zero_le _) (Nat.zero_le 2)).paren
  | @compare op left right hl hr hleft hright ihl ihr =>
      refine ⟨fun k _ hk => ?_, nofun⟩
      exact ((ihl.2 hleft).compare op (ihr.2 hright)).loosen hk (Nat.le_refl 2)
  | @not operand h hrank ih =>
      refine ⟨fun k _ hk => ?_, nofun⟩
      exact (ih.1 2 hrank (Nat.le_refl 2)).not.loosen hk (Nat.le_refl 2)
  | @chain k first more hk hmore h hrank ih =>
      refine ⟨fun r hr _ => ?_, fun hoperand => ?_⟩
      · have hread : ∀ p ∈ first :: more, ReadsAt (k + 1) p.lexemes p.filter := fun p hp =>
          (ih p hp).1 (k + 1) (hrank p hp) hk
        obtain ⟨hfirst, hrest⟩ := List.forall_mem_cons.mp hread
        have hoperands : ∀ o ∈ more.map fun p => (p.lexemes, p.filter),
            ReadsAt (k + 1) o.1 o.2 := List.forall_mem_map.mpr hrest
        have hchain := hfirst.chain hk hoperands
        rw [List.map_map, List.map_map, join, if_neg (by simpa using hmore)] at hchain
        refine ReadsAt.loosen hr (Nat.le_of_lt hk) ?_
        rw [lexemes, filter, meaning, meanings_eq, allLexemes_eq]
        exact hchain
      · have hthree : k = 3 := hoperand
        omega

end Phrase

/-! ## Operands without parentheses -/

variable {ls : List Lexeme} {toks : List Token} (source : String)

/-- The rule reads the lexemes as the value, in whatever source, and stops behind them if
nothing comes there that it would go on with. -/
def ReadsAs {α : Type} (read : String → (toks : List Token) →
    Except Error (α × { rest : List Token // rest.length ≤ toks.length }))
    (ls : List Lexeme) (a : α) : Prop :=
  ∀ (source : String) (toks : List Token) (rest : List Lexeme),
    toks.map Token.lexeme = ls ++ rest → Ends 3 rest →
      ∃ after, read source toks = .ok (a, after) ∧ after.1.map Token.lexeme = rest

theorem pathBracket_tokens (toks : List Token) :
    Yields (fun p => IsKey p.rest toks p.value) (pathBracket source toks) := by
  unfold pathBracket
  split
  · exact .ok (.name _ _ _)
  · exact .ok (.index _ _ _)
  · exact .fail
  · exact .fail

theorem pathStep_tokens (toks : List Token) :
    Yields (fun step => ∀ p, step = some p → IsStep p.rest toks p.value)
      (pathStep source toks) := by
  unfold pathStep
  split
  · refine .bind (member_tokens source _) fun m hm => ?_
    split
    · next s hs =>
      refine .ok fun p hp => ?_
      cases hp
      exact .member _ _ (hm s hs)
    · exact .fail
  · refine .bind (pathBracket_tokens source _) fun key hkey => ?_
    refine .bind (expect_tokens source _ _ _) fun close hclose => .ok fun p hp => ?_
    obtain ⟨offset, size, heq⟩ := hclose
    cases hp
    rw [heq] at hkey
    exact .key _ _ _ _ hkey
  · exact .ok nofun

/-- The lexemes of a step are read again wherever they stand. -/
theorem IsStep.reads {rest : List Token} {s : Step} (h : IsStep rest toks s) :
    ∃ ls, toks.map Token.lexeme = ls ++ rest.map Token.lexeme ∧
      ∀ (source : String) (toks : List Token) (ls' : List Lexeme),
        toks.map Token.lexeme = ls ++ ls' → ∃ p, pathStep source toks = .ok (some p) ∧
          p.value = s ∧ p.rest.map Token.lexeme = ls' := by
  cases h with
  | member _ _ hmember =>
      cases hmember with
      | name _ _ s =>
          refine ⟨[.mark .point, .name s], rfl, fun source toks ls' htoks => ?_⟩
          obtain ⟨_, _, _, rfl, hname⟩ := exists_of_lexemes htoks
          obtain ⟨_, _, _, rfl, hrest⟩ := exists_of_lexemes hname
          exact ⟨_, rfl, rfl, hrest⟩
      | numeral _ _ n =>
          refine ⟨[.mark .point, .number (.int n)], rfl, fun source toks ls' htoks => ?_⟩
          obtain ⟨_, _, _, rfl, hnumber⟩ := exists_of_lexemes htoks
          obtain ⟨_, _, _, rfl, hrest⟩ := exists_of_lexemes hnumber
          exact ⟨_, rfl, rfl, hrest⟩
  | key _ _ _ _ hkey =>
      cases hkey with
      | name _ _ s => exact ⟨stepLexemes (.field s), rfl, fun source _ _ => pathStep_written source⟩
      | index _ _ i =>
          exact ⟨stepLexemes (.index i), rfl, fun source _ _ => pathStep_written source⟩

theorem pathSteps_reads (toks : List Token) :
    Yields (fun p => ∃ ls, toks.map Token.lexeme = ls ++ p.2.1.map Token.lexeme ∧
      ReadsAs pathSteps ls p.1) (pathSteps source toks) := by
  fun_induction pathSteps source toks with
  | case1 toks ih =>
      refine .bind (pathStep_tokens source toks) fun step hstep => ?_
      cases step with
      | none =>
          refine .ok ⟨[], rfl, fun source toks rest htoks hend => ?_⟩
          have hrest : rest = toks.map Token.lexeme := htoks.symm
          subst hrest
          rw [pathSteps, pathStep_none source hend]
          exact ⟨_, rfl, rfl⟩
      | some s =>
          refine .bind (ih s) fun more hmore => .ok ?_
          obtain ⟨ls, hls, hread⟩ := (hstep s rfl).reads
          obtain ⟨ls', hls', hread'⟩ := hmore
          refine ⟨ls ++ ls', by rw [hls, hls', List.append_assoc], ?_⟩
          intro source toks rest htoks hend
          rw [List.append_assoc] at htoks
          obtain ⟨p, hp, hvalue, hlexemes⟩ := hread source toks _ htoks
          obtain ⟨after, hafter, hlast⟩ := hread' source p.rest rest hlexemes hend
          refine ⟨⟨after.1, Nat.le_trans after.2 (Nat.le_of_lt p.shorter)⟩, ?_, hlast⟩
          rw [pathSteps, hp]
          show (pathSteps source p.rest >>= _) = _
          rw [hafter, ← hvalue]
          rfl

theorem relativePath_reads (atCandidate : Bool) (toks : List Token) :
    Yields (fun p => ∃ ls, toks.map Token.lexeme = ls ++ p.2.1.map Token.lexeme ∧
      ReadsAs (relativePath · atCandidate) ls p.1) (relativePath source atCandidate toks) := by
  rw [relativePath]
  refine .bind (pathSteps_reads source toks) fun steps hsteps => ?_
  obtain ⟨ls, hls, hread⟩ := hsteps
  dsimp only
  generalize hfull : (if atCandidate = true then Step.field "@" :: steps.1 else steps.1) = full
  split
  · next name more =>
    cases hpath : filterPath (.field name :: more) with
    | error e => exact .error
    | ok p =>
        refine .ok ⟨ls, hls, fun source toks rest htoks hend => ?_⟩
        obtain ⟨after, hafter, hlast⟩ := hread source toks rest htoks hend
        refine ⟨after, ?_, hlast⟩
        show relativePath source atCandidate toks = _
        rw [relativePath, hafter]
        dsimp only [bind, Except.bind]
        rw [hfull]
        dsimp only
        rw [hpath]
  · exact .fail

theorem readsPlain_of_path {m : Mark} {atCandidate : Bool} {p : DotPath}
    (hm : m = .current ∧ atCandidate = true ∨ m = .root ∧ atCandidate = false)
    (h : ReadsAs (relativePath · atCandidate) ls p) :
    ReadsPlain (.mark m :: ls) (.path p, true) := by
  refine ⟨⟨_, ls, rfl, ?_, ?_⟩, fun source toks rest htoks hend => ?_⟩
  · rcases hm with ⟨rfl, -⟩ | ⟨rfl, -⟩ <;> nofun
  · rcases hm with ⟨rfl, -⟩ | ⟨rfl, -⟩ <;> nofun
  · obtain ⟨_, _, behind, rfl, hbehind⟩ := exists_of_lexemes htoks
    obtain ⟨after, hafter, hlast⟩ := h source behind rest hbehind hend
    have hafter : relativePath source atCandidate behind = .ok (p, after) := hafter
    refine ⟨⟨_, after.1, Nat.lt_succ_of_le after.2⟩, ?_, rfl, hlast⟩
    rcases hm with ⟨rfl, rfl⟩ | ⟨rfl, rfl⟩ <;>
      · rw [plainOperand, hafter]
        rfl

theorem plainOperand_reads (toks : List Token) :
    Yields (fun p => ∃ ls, toks.map Token.lexeme = ls ++ p.rest.map Token.lexeme ∧
      ReadsPlain ls p.value) (plainOperand source toks) := by
  have hsingle : ∀ {l : Lexeme} {v : Filter × Bool}, (∀ m, l ≠ .mark m) →
      (∀ (source : String) offset size rest, ∃ h,
        plainOperand source (⟨l, offset, size⟩ :: rest) = .ok ⟨v, rest, h⟩) →
      ReadsPlain [l] v := by
    intro l v hmark hread
    refine ⟨⟨l, [], rfl, hmark .not, hmark .openParen⟩, fun source toks rest htoks _ => ?_⟩
    obtain ⟨offset, size, after, rfl, hafter⟩ := exists_of_lexemes htoks
    obtain ⟨h, heq⟩ := hread source offset size after
    exact ⟨_, heq, rfl, hafter⟩
  rw [plainOperand.eq_def]
  split
  · next n _ _ rest =>
      exact .ok ⟨[.number n], rfl, hsingle (by simp) fun _ _ _ _ => ⟨Nat.lt_succ_self _, rfl⟩⟩
  · next s _ _ rest =>
      exact .ok ⟨[.string s], rfl, hsingle (by simp) fun _ _ _ _ => ⟨Nat.lt_succ_self _, rfl⟩⟩
  · next s _ _ rest =>
      split
      · next v hv =>
          refine .ok ⟨[.name s], rfl, hsingle (by simp) fun _ _ _ _ => ⟨Nat.lt_succ_self _, ?_⟩⟩
          rw [plainOperand, hv]
      · exact .fail
  · refine .bind (relativePath_reads source true _) fun p hp => .ok ?_
    obtain ⟨ls, hls, hread⟩ := hp
    exact ⟨.mark .current :: ls, congrArg (Lexeme.mark .current :: ·) hls,
      readsPlain_of_path (.inl ⟨rfl, rfl⟩) hread⟩
  · refine .bind (relativePath_reads source false _) fun p hp => .ok ?_
    obtain ⟨ls, hls, hread⟩ := hp
    exact ⟨.mark .root :: ls, congrArg (Lexeme.mark .root :: ·) hls,
      readsPlain_of_path (.inr ⟨rfl, rfl⟩) hread⟩
  · exact .fail

/-- Lexemes that are read as an operand by themselves are read so everywhere. -/
theorem readsPlain_of_plainOperand {ls : List Lexeme} {v : Filter × Bool}
    (h : (plainOperand "" (ls.map fun l => ⟨l, 0, 0⟩)).map (fun p => (p.value, p.rest)) =
      .ok (v, [])) : ReadsPlain ls v := by
  cases hp : plainOperand "" (ls.map fun l => ⟨l, 0, 0⟩) with
  | error e =>
      rw [hp] at h
      cases h
  | ok p =>
      rw [hp] at h
      obtain ⟨rfl, hrest⟩ := Prod.mk.inj (Except.ok.inj h)
      obtain ⟨ls', hls, hread⟩ := plainOperand_reads "" _ p hp
      rw [hrest, List.map_map, List.map_nil, List.append_nil] at hls
      obtain rfl : ls = ls' := (List.map_id _).symm.trans hls
      exact hread

/-! ## The rules of filters -/

namespace Phrase

/-- Phrases with the mark of a connective between them; one needs none. -/
def joined (k : Nat) (first : Phrase) (more : List Phrase) : Phrase :=
  if more.isEmpty then first else chain k first more

variable {k : Nat} {first : Phrase} {more : List Phrase}

theorem lexemes_joined : (joined k first more).lexemes =
    first.lexemes ++ behind (connectiveMark k) (more.map lexemes) := by
  cases more with
  | nil => exact (List.append_nil _).symm
  | cons p rest =>
      show (chain k first (p :: rest)).lexemes = _
      rw [lexemes, allLexemes_eq]

theorem filter_joined : (joined k first more).filter =
    join (connective k) first.filter (more.map filter) := by
  cases more with
  | nil => rfl
  | cons p rest =>
      show meaning false (chain k first (p :: rest)) = _
      rw [meaning, meanings_eq]
      rfl

theorem le_rank_joined (hfirst : k < first.rank) : k ≤ (joined k first more).rank := by
  unfold joined
  split
  · exact Nat.le_of_lt hfirst
  · exact Nat.le_refl k

theorem IsGrammatical.joined (hk : k < 2)
    (h : ∀ p ∈ first :: more, p.IsGrammatical ∧ k < p.rank) :
    (joined k first more).IsGrammatical := by
  unfold Phrase.joined
  split
  · exact (h first List.mem_cons_self).1
  · next hmore =>
      exact .chain hk (by simpa using hmore) (fun p hp => (h p hp).1) fun p hp => (h p hp).2

end Phrase

open Phrase (IsGrammatical)

/-- A rule read a phrase that binds at least as tightly as the rank. -/
def IsPhrase (rank : Nat) (p : Parsed Filter toks) : Prop :=
  ∃ t : Phrase, t.IsGrammatical ∧ rank ≤ t.rank ∧ t.filter = p.value ∧
    toks.map Token.lexeme = t.lexemes ++ p.rest.map Token.lexeme

/-- A rule read phrases behind the mark of a connective. -/
def ArePhrases (k : Nat)
    (p : List Filter × { rest : List Token // rest.length ≤ toks.length }) : Prop :=
  ∃ ts : List Phrase, (∀ t ∈ ts, t.IsGrammatical ∧ k < t.rank) ∧ ts.map Phrase.filter = p.1 ∧
    toks.map Token.lexeme = behind (connectiveMark k) (ts.map Phrase.lexemes) ++
      p.2.1.map Token.lexeme

/-- A rule read an operand. -/
def IsOperand (p : Parsed (Filter × Bool) toks) : Prop :=
  ∃ t : Phrase, t.IsGrammatical ∧ t.rank = 3 ∧ (t.meaning true, t.isBare) = p.value ∧
    toks.map Token.lexeme = t.lexemes ++ p.rest.map Token.lexeme

theorem IsPhrase.join {k : Nat} (hk : k < 2) {first : Parsed Filter toks}
    (hfirst : IsPhrase (k + 1) first)
    {more : List Filter × { rest : List Token // rest.length ≤ first.rest.length }}
    (hmore : ArePhrases k more) (h : more.2.1.length < toks.length) :
    @IsPhrase toks k ⟨Query.join (connective k) first.value more.1, more.2.1, h⟩ := by
  obtain ⟨t, ht, hrank, hfilter, hlexemes⟩ := hfirst
  obtain ⟨ts, hts, hfilters, hbehind⟩ := hmore
  refine ⟨.joined k t ts, .joined hk (List.forall_mem_cons.mpr ⟨⟨ht, hrank⟩, hts⟩),
    Phrase.le_rank_joined hrank, ?_, ?_⟩
  · rw [Phrase.filter_joined, hfilter, hfilters]
  · rw [Phrase.lexemes_joined, hlexemes, hbehind, List.append_assoc]

theorem ArePhrases.nil (k : Nat) (h : toks.length ≤ toks.length) :
    @ArePhrases toks k ([], ⟨toks, h⟩) :=
  ⟨[], List.forall_mem_nil _, rfl, rfl⟩

theorem ArePhrases.cons {k offset size : Nat} {first : Parsed Filter toks}
    (hfirst : IsPhrase (k + 1) first)
    {more : List Filter × { rest : List Token // rest.length ≤ first.rest.length }}
    (hmore : ArePhrases k more) (h : more.2.1.length ≤ toks.length + 1) :
    @ArePhrases (⟨.mark (connectiveMark k), offset, size⟩ :: toks) k
      (first.value :: more.1, ⟨more.2.1, h⟩) := by
  obtain ⟨t, ht, hrank, hfilter, hlexemes⟩ := hfirst
  obtain ⟨ts, hts, hfilters, hbehind⟩ := hmore
  refine ⟨t :: ts, List.forall_mem_cons.mpr ⟨⟨ht, hrank⟩, hts⟩, ?_, ?_⟩
  · rw [List.map_cons, hfilter, hfilters]
  · rw [List.map_cons, hlexemes, hbehind, List.map_cons, behind_cons, List.cons_append,
      List.append_assoc]

theorem IsOperand.alone {p : Parsed (Filter × Bool) toks} (h : IsOperand p) :
    IsPhrase 2 (p.map fun p => if p.2 then standalone p.1 else p.1) := by
  obtain ⟨t, ht, hrank, hvalue, hlexemes⟩ := h
  refine ⟨t, ht, hrank ▸ by decide, ?_, hlexemes⟩
  rw [t.filter_eq, Parsed.map, ← hvalue]

theorem comparisonMark_of_comparison? {m : Mark} {op : Comparison} (h : comparison? m = some op) :
    comparisonMark op = m := by
  cases m <;> cases h <;> rfl

/-- Whatever the rules read is the text of a phrase. -/
theorem rules_phrases (source : String) :
    (∀ toks, Yields (IsPhrase 0) (orFilter source toks)) ∧
    (∀ toks, Yields (ArePhrases 0) (moreOr source toks)) ∧
    (∀ toks, Yields (IsPhrase 1) (andFilter source toks)) ∧
    (∀ toks, Yields (ArePhrases 1) (moreAnd source toks)) ∧
    (∀ toks, Yields (IsPhrase 2) (unary source toks)) ∧
    (∀ toks, Yields (IsPhrase 2) (comparison source toks)) ∧
    ∀ toks, Yields IsOperand (operand source toks) := by
  -- One case for each rule and each way it can go on, in the order of their definitions.
  apply orFilter.mutual_induct
  case case1 =>
    intro toks hfirst hmore
    rw [orFilter]
    exact .bind hfirst fun first h => .bind (hmore first) fun more hm =>
      .ok (h.join (by decide) hm _)
  case case2 =>
    intro offset size rest hfirst hmore
    rw [moreOr]
    exact .bind hfirst fun first h => .bind (hmore first) fun more hm => .ok (.cons h hm _)
  case case3 =>
    intro other hother
    rw [moreOr.eq_def]
    split
    · next offset size rest => exact absurd rfl (hother offset size rest)
    · exact .ok (.nil 0 _)
  case case4 =>
    intro toks hfirst hmore
    rw [andFilter]
    exact .bind hfirst fun first h => .bind (hmore first) fun more hm =>
      .ok (h.join (by decide) hm _)
  case case5 =>
    intro offset size rest hfirst hmore
    rw [moreAnd]
    exact .bind hfirst fun first h => .bind (hmore first) fun more hm => .ok (.cons h hm _)
  case case6 =>
    intro other hother
    rw [moreAnd.eq_def]
    split
    · next offset size rest => exact absurd rfl (hother offset size rest)
    · exact .ok (.nil 1 _)
  case case7 =>
    intro offset size rest hoperand
    rw [unary]
    refine .bind hoperand fun operand h => .ok ?_
    obtain ⟨t, ht, hrank, hfilter, hlexemes⟩ := h
    refine ⟨.not t, .not ht hrank, Nat.le_refl 2, ?_, ?_⟩
    · rw [Phrase.filter, Phrase.meaning]
      exact congrArg Filter.not hfilter
    · rw [Phrase.lexemes]
      exact congrArg (Lexeme.mark .not :: ·) hlexemes
  case case8 =>
    intro other hother hcomparison
    rw [unary.eq_def]
    split
    · next offset size rest => exact absurd rfl (hother offset size rest)
    · exact hcomparison
  case case9 =>
    intro toks hleft hright
    rw [comparison]
    refine .bind hleft fun left h => ?_
    split
    · next m offset size rest heq =>
      split
      · next op hop =>
        refine .bind (hright left m offset size rest heq) fun right hr => .ok ?_
        obtain ⟨t, ht, hrank, hvalue, hlexemes⟩ := h
        obtain ⟨t', ht', hrank', hvalue', hlexemes'⟩ := hr
        refine ⟨.compare op t t', .compare ht ht' hrank hrank', Nat.le_refl 2, ?_, ?_⟩
        · rw [Phrase.filter, Phrase.meaning, ← hvalue, ← hvalue']
        · have hbehind := congrArg (List.map Token.lexeme) heq
          rw [List.map_cons, hlexemes'] at hbehind
          rw [hlexemes, hbehind, Phrase.lexemes, comparisonMark_of_comparison? hop,
            List.append_assoc, List.cons_append]
      · exact .ok h.alone
    · exact .ok h.alone
  case case10 =>
    intro offset size rest hinner
    rw [operand]
    refine .bind hinner fun inner h => .bind (expect_tokens source _ _ _) fun close hclose => .ok ?_
    obtain ⟨t, ht, -, hfilter, hlexemes⟩ := h
    obtain ⟨_, _, hrest⟩ := hclose
    refine ⟨.group t, .group ht, rfl, ?_, ?_⟩
    · rw [← hfilter, Phrase.meaning]
      rfl
    · have hbehind := congrArg (List.map Token.lexeme) hrest
      rw [List.map_cons, hlexemes, hbehind, Phrase.lexemes, parenthesized, List.cons_append,
        List.append_assoc]
      rfl
  case case11 =>
    intro other hother
    rw [operand.eq_def]
    split
    · next offset size rest => exact absurd rfl (hother offset size rest)
    · intro p hp
      obtain ⟨ls, hls, hread⟩ := plainOperand_reads source _ p hp
      refine ⟨.plain ls p.value.1 p.value.2, .plain hread, rfl, ?_, ?_⟩
      · simp [Phrase.meaning, Phrase.isBare]
      · rw [hls, Phrase.lexemes]

/-! ## Queries of one filter -/

/-- The query that keeps what a condition holds of, with the text of the condition. -/
def filterQuery (condition : String) : String := "$[?(" ++ condition ++ ")]"

theorem toList_filterQuery (condition : String) : (filterQuery condition).toList =
    '$' :: '[' :: '?' :: '(' :: (condition.toList ++ [')', ']']) := by
  simp [filterQuery]

theorem segments_eq_nil {toks : List Token} (h : segments source toks = .ok []) : toks = [] := by
  cases toks with
  | nil => rfl
  | cons t rest =>
      rw [segments] at h
      obtain ⟨first, -, h⟩ := ok_of_bind h
      obtain ⟨more, -, h⟩ := ok_of_bind h
      cases h

/-- What is read as one filter is a phrase between the marks of a filter. -/
theorem exists_phrase_of_segments {toks : List Token} {f : Filter}
    (htoks : toks.map Token.lexeme =
      .mark .openBracket :: .mark .question :: .mark .openParen :: ls)
    (h : segments source toks = .ok [.filter f]) :
    ∃ t : Phrase, t.IsGrammatical ∧ t.filter = f ∧
      ls = t.lexemes ++ [.mark .closeParen, .mark .closeBracket] := by
  obtain ⟨_, _, _, rfl, hquestion⟩ := exists_of_lexemes htoks
  obtain ⟨_, _, _, rfl, hparen⟩ := exists_of_lexemes hquestion
  obtain ⟨_, _, inner, rfl, rfl⟩ := exists_of_lexemes hparen
  rw [segments] at h
  obtain ⟨first, hfirst, h⟩ := ok_of_bind h
  obtain ⟨more, hmore, h⟩ := ok_of_bind h
  obtain ⟨hvalue, rfl⟩ := List.cons.inj (Except.ok.inj h)
  rw [segment] at hfirst
  obtain ⟨b, hb, hfirst⟩ := ok_of_bind hfirst
  cases hfirst
  rw [bracket] at hb
  obtain ⟨c, hc, hb⟩ := ok_of_bind hb
  obtain ⟨last, hlast, hb⟩ := ok_of_bind hb
  cases hb
  rw [contents] at hc
  obtain ⟨opening, hopening, hc⟩ := ok_of_bind hc
  obtain ⟨p, hp, hc⟩ := ok_of_bind hc
  obtain ⟨close, hclose, hc⟩ := ok_of_bind hc
  cases hc
  cases hopening
  obtain ⟨t, ht, -, hfilter, hlexemes⟩ := (rules_phrases source).1 _ p hp
  cases hvalue
  refine ⟨t, ht, hfilter, ?_⟩
  obtain ⟨_, _, hclose⟩ := expect_tokens source _ _ _ close hclose
  obtain ⟨_, _, hlast⟩ := expect_tokens source _ _ _ last hlast
  have hnil : last.rest = [] := segments_eq_nil source hmore
  have hclosed := congrArg (List.map Token.lexeme) hclose
  have hlasts := congrArg (List.map Token.lexeme) hlast
  rw [List.map_cons] at hclosed hlasts
  rw [hlexemes, hclosed]
  refine congrArg (fun ls => t.lexemes ++ .mark .closeParen :: ls) (hlasts.trans ?_)
  rw [hnil]
  rfl

/-- A text is read as the condition of a filter exactly when it is that of a phrase. -/
theorem parse_filterQuery_iff {condition : String} {f : Filter} :
    parse (filterQuery condition) = .ok [.filter f] ↔
      ∃ t : Phrase, t.IsGrammatical ∧ Spells condition.toList t.lexemes ∧ t.filter = f := by
  constructor
  · intro h
    rw [parse] at h
    split at h
    · cases h
    obtain ⟨toks, htoks, hstart⟩ := ok_of_bind h
    -- The text around the condition is four marks and two, which are tokens of their own.
    have hspells : Spells (filterQuery condition).toList (toks.map Token.lexeme) :=
      spells_of_scan (by rw [htoks]; rfl)
    rw [toList_filterQuery] at hspells
    obtain ⟨_, hroot, hbracket⟩ := hspells.of_mark (m := .root) rfl
    obtain ⟨_, rfl, hquestion⟩ := hbracket.of_mark (m := .openBracket) rfl
    obtain ⟨_, rfl, hparen⟩ := hquestion.of_mark (m := .question) rfl
    obtain ⟨ls, rfl, hinner⟩ := hparen.of_mark (m := .openParen) rfl
    obtain ⟨_, _, rest, rfl, hrest⟩ := exists_of_lexemes hroot
    obtain ⟨t, ht, hfilter, rfl⟩ := exists_phrase_of_segments _ hrest hstart
    exact ⟨t, ht, hinner.of_close, hfilter⟩
  · rintro ⟨t, ht, hspells, rfl⟩
    have hscans : Scans ('[' :: '?' :: '(' :: (condition.toList ++ [')', ']']))
        (.mark .openBracket :: .mark .question :: .mark .openParen ::
          (t.lexemes ++ [.mark .closeParen, .mark .closeBracket])) := by
      have hinner := (hspells.append (fun c hc => .inr (by cases hc; rfl)) spells_close).scans
      exact ((hinner.mark (m := .openParen) rfl).mark (m := .question) rfl).mark
        (m := .openBracket) rfl
    obtain ⟨toks, htoks, hparse⟩ := parse_root (toList_filterQuery condition) hscans
    rw [hparse]
    exact segments_filter _ (ht.reads.1 0 (Nat.zero_le _) (Nat.zero_le 2)) htoks

theorem parse_filterQuery_of_scan {condition : String} {t : Phrase} (ht : t.IsGrammatical)
    (h : (scan condition).map (List.map Token.lexeme) = .ok t.lexemes) :
    parse (filterQuery condition) = .ok [.filter t.filter] :=
  parse_filterQuery_iff.mpr ⟨t, ht, spells_of_scan h, rfl⟩

end Conduit.Query
