import Conduit.Proofs.Query.Phrase

/-!
# What a segment is read from

A segment ends with a token of its own: the name, the numeral or the star behind a
point, or the bracket that closes it. So its lexemes are read as that segment wherever
they stand. The mark of the candidate stands only inside filters.
-/

namespace Conduit.Query

variable {ls : List Lexeme} {toks : List Token} (source : String)

/-! ## Selectors -/

theorem integer?_lexemes (toks : List Token) :
    Yields (fun p => toks.map Token.lexeme = integerLexemes p.1 ++ p.2.1.map Token.lexeme)
      (integer? source toks) := by
  unfold integer?
  split
  · exact .ok rfl
  · exact .fail
  · exact .ok rfl

theorem sliceStep_lexemes (toks : List Token) :
    Yields (fun p => p.1 ≠ some 0 ∧ ∃ kept : Bool, toks.map Token.lexeme =
        (if p.1.isSome || kept then .mark .colon :: integerLexemes p.1 else []) ++
          p.2.1.map Token.lexeme)
      (sliceStep source toks) := by
  unfold sliceStep
  split
  · refine .bind (integer?_lexemes source _) fun p hp => ?_
    dsimp only
    split
    · exact .fail
    · next hzero =>
        refine .ok ⟨hzero, true, ?_⟩
        rw [Bool.or_true, if_pos rfl]
        exact congrArg (Lexeme.mark .colon :: ·) hp
  · exact .ok ⟨nofun, false, rfl⟩

theorem sliceFrom_lexemes (start : Option Int) (toks : List Token) :
    Yields (fun p => p.value.start = start ∧ p.value.step ≠ some 0 ∧ ∃ keep,
        toks.map Token.lexeme = sliceTail keep p.value ++ p.rest.map Token.lexeme)
      (sliceFrom source start toks) := by
  unfold sliceFrom
  split
  · refine .bind (integer?_lexemes source _) fun stop hstop => ?_
    refine .bind (sliceStep_lexemes source _) fun step hstep => .ok ?_
    obtain ⟨hzero, kept, hlexemes⟩ := hstep
    refine ⟨rfl, hzero, fun _ => kept, ?_⟩
    rw [List.map_cons, hstop, hlexemes, sliceTail, List.cons_append, List.append_assoc]
  · exact .fail

theorem selector_lexemes {P : Type} (toks : List Token) :
    Yields (fun p => ∃ ls, SpellsSelector ls p.value ∧
        toks.map Token.lexeme = ls ++ p.rest.map Token.lexeme)
      (selector (P := P) source toks) := by
  -- A slice is read behind the integer that it starts with, if it has one.
  have hslice : ∀ {start : Option Int} {rest behind : List Lexeme} {s : Slice},
      (s.start = start ∧ s.step ≠ some 0 ∧ ∃ keep, rest = sliceTail keep s ++ behind) →
      ∃ ls, SpellsSelector ls (Segment.slice (P := P) s) ∧
        integerLexemes start ++ rest = ls ++ behind := by
    rintro start rest behind s ⟨rfl, hzero, keep, rfl⟩
    exact ⟨_, ⟨hzero, keep, rfl⟩, (List.append_assoc _ _ _).symm⟩
  unfold selector
  split
  · next s _ _ rest => exact .ok ⟨[.string s], ⟨trivial, fun _ => false, rfl⟩, rfl⟩
  · exact .bind (sliceFrom_lexemes source _ _) fun p hp => .ok (hslice hp)
  · next n _ _ rest _ =>
      exact .ok ⟨[.number (.int n)], ⟨trivial, fun _ => false, rfl⟩, rfl⟩
  · exact .fail
  · exact .bind (sliceFrom_lexemes source _ _) fun p hp => .ok (hslice hp)

theorem moreSelectors_lexemes {P : Type} (toks : List Token) :
    Yields (fun p => ∃ parts : List (List Lexeme × Segment P),
        (∀ part ∈ parts, SpellsSelector part.1 part.2) ∧ parts.map Prod.snd = p.1 ∧
        toks.map Token.lexeme =
          (parts.flatMap fun part => .mark .comma :: part.1) ++ p.2.1.map Token.lexeme)
      (moreSelectors source toks) := by
  fun_induction moreSelectors (P := P) source toks with
  | case1 offset size rest ih =>
      refine .bind (selector_lexemes source rest) fun first hfirst => ?_
      refine .bind (ih first) fun more hmore => .ok ?_
      obtain ⟨ls, hspells, hlexemes⟩ := hfirst
      obtain ⟨parts, hparts, hvalues, hbehind⟩ := hmore
      refine ⟨(ls, first.value) :: parts, List.forall_mem_cons.mpr ⟨hspells, hparts⟩, ?_, ?_⟩
      · rw [List.map_cons, hvalues]
      · rw [List.map_cons, hlexemes, hbehind, ← List.append_assoc]
        rfl
  | case2 other hother => exact .ok ⟨[], List.forall_mem_nil _, rfl, rfl⟩

theorem SpellsSelector.noCandidate {P : Type} {s : Segment P} (h : SpellsSelector ls s) :
    .mark .current ∉ ls := by
  have hinteger : ∀ n : Option Int, .mark .current ∉ integerLexemes n := by
    rintro (_ | n) <;> simp [integerLexemes]
  obtain ⟨hs, keep, rfl⟩ := h
  cases s with
  | step s => cases s <;> simp [selectorLexemes]
  | slice s =>
      rw [selectorLexemes, sliceLexemes, sliceTail]
      split <;> simp [hinteger]
  | _ => exact hs.elim

/-! ## Segments -/

theorem expect_lexemes (m : Mark) (what : String) (toks : List Token) :
    Yields (fun p => toks.map Token.lexeme = .mark m :: p.rest.map Token.lexeme)
      (expect source m what toks) := by
  intro p hp
  obtain ⟨_, _, heq⟩ := expect_tokens source m what toks p hp
  exact congrArg (List.map Token.lexeme) heq

/-- The rule reads the lexemes as the value, whatever stands behind them. -/
def Reads {α : Type} (read : String → Rule α) (ls : List Lexeme) (a : α) : Prop :=
  ∀ (source : String) (toks : List Token) (rest : List Lexeme),
    toks.map Token.lexeme = ls ++ rest → Leaves (read source toks) a rest

/-- The contents of a bracket that are no filter, or one filter. -/
inductive IsContents : List Lexeme → Prop where
  | plain {ls : List Lexeme} (h : .mark .current ∉ ls) : IsContents ls
  | filter {t : Phrase} (h : t.IsGrammatical) :
    IsContents (.mark .question :: .mark .openParen :: (t.lexemes ++ [.mark .closeParen]))

theorem bracket_of_contents {s : Segment Filter} {rest : List Lexeme}
    (h : Leaves (contents source toks) s (.mark .closeBracket :: rest)) :
    Leaves (bracket source toks) s rest := by
  obtain ⟨p, hp, rfl, hlexemes⟩ := h
  obtain ⟨close, hclose, -, hlast⟩ := expect_written source "']'" hlexemes
  refine ⟨⟨p.value, close.rest, Nat.lt_trans close.shorter p.shorter⟩, ?_, rfl, hlast⟩
  rw [bracket, hp]
  show (expect source .closeBracket "']'" p.rest >>= _) = _
  rw [hclose]
  rfl

/-- What a bracket holds is read again before its closing mark. -/
theorem contents_reads (toks : List Token) :
    Yields (fun p => ∃ ls, toks.map Token.lexeme = ls ++ p.rest.map Token.lexeme ∧
        IsContents ls ∧ ∀ (source : String) (toks : List Token) (rest : List Lexeme),
          toks.map Token.lexeme = ls ++ .mark .closeBracket :: rest →
            Leaves (contents source toks) p.value (.mark .closeBracket :: rest))
      (contents source toks) := by
  unfold contents
  split
  · refine .ok ⟨[.mark .star], rfl, .plain (by simp), fun source toks rest htoks => ?_⟩
    obtain ⟨_, _, _, rfl, hrest⟩ := exists_of_lexemes htoks
    exact ⟨_, rfl, rfl, hrest⟩
  · refine .bind (expect_lexemes source _ _ _) fun opening hopening => ?_
    refine .bind ((rules_phrases source).1 _) fun condition hcondition => ?_
    refine .bind (expect_lexemes source _ _ _) fun close hclose => .ok ?_
    obtain ⟨t, ht, -, hfilter, hlexemes⟩ := hcondition
    have hread : ReadsAt 0 t.lexemes condition.value :=
      hfilter ▸ ht.reads.1 0 (Nat.zero_le _) (Nat.zero_le 2)
    refine ⟨_, ?_, .filter ht, fun source toks rest htoks => ?_⟩
    · rw [List.map_cons, hopening, hlexemes, hclose]
      simp
    · refine contents_filter source hread (htoks.trans ?_)
      simp
  · refine .bind (selector_lexemes source _) fun first hfirst => ?_
    refine .bind (moreSelectors_lexemes source _) fun more hmore => .ok ?_
    obtain ⟨ls, hspells, hlexemes⟩ := hfirst
    obtain ⟨parts, hparts, hvalues, hbehind⟩ := hmore
    have hall : ∀ part ∈ (ls, first.value) :: parts, SpellsSelector part.1 part.2 :=
      List.forall_mem_cons.mpr ⟨hspells, hparts⟩
    refine ⟨ls ++ parts.flatMap fun part => .mark .comma :: part.1, ?_, .plain ?_,
      fun source toks rest htoks => ?_⟩
    · rw [hlexemes, hbehind, List.append_assoc]
    · simp only [List.mem_append, List.mem_flatMap, List.mem_cons, not_or, not_exists, not_and]
      exact ⟨hspells.noCandidate, fun part hpart => ⟨by simp, (hparts part hpart).noCandidate⟩⟩
    · rw [List.append_assoc] at htoks
      have hread := contents_selectors source hall htoks
      rw [← hvalues, List.isEmpty_map]
      exact hread

theorem bracket_reads (toks : List Token) :
    Yields (fun p => ∃ ls, toks.map Token.lexeme =
        ls ++ .mark .closeBracket :: p.rest.map Token.lexeme ∧ IsContents ls ∧
          Reads bracket (ls ++ [.mark .closeBracket]) p.value)
      (bracket source toks) := by
  unfold bracket
  refine .bind (contents_reads source toks) fun inner hinner => ?_
  refine .bind (expect_lexemes source _ _ _) fun close hclose => .ok ?_
  obtain ⟨ls, hlexemes, hform, hread⟩ := hinner
  refine ⟨ls, by rw [hlexemes, hclose], hform, fun source toks rest htoks => ?_⟩
  rw [List.append_assoc] at htoks
  exact bracket_of_contents source (hread source toks rest htoks)

theorem Reads.bracket {s : Segment Filter} (h : Reads bracket ls s) :
    Reads segment (.mark .openBracket :: ls) s := by
  intro source toks rest htoks
  obtain ⟨_, _, after, rfl, hafter⟩ := exists_of_lexemes htoks
  obtain ⟨p, hp, hvalue, hlexemes⟩ := h source after rest hafter
  refine ⟨p.from_ (Nat.le_succ _), ?_, hvalue, hlexemes⟩
  rw [segment, hp]
  rfl

theorem Reads.descent {s : Segment Filter} (h : Reads Query.bracket ls s) :
    Reads segment (.mark .descend :: .mark .openBracket :: ls) (.descent s) := by
  intro source toks rest htoks
  obtain ⟨_, _, opening, rfl, hopening⟩ := exists_of_lexemes htoks
  obtain ⟨_, _, after, rfl, hafter⟩ := exists_of_lexemes hopening
  obtain ⟨p, hp, rfl, hlexemes⟩ := h source after rest hafter
  refine ⟨(p.map Segment.descent).from_ (Nat.le_succ_of_le (Nat.le_succ _)), ?_, rfl, hlexemes⟩
  rw [segment, hp]
  rfl

theorem Reads.point {l : Lexeme} {s : Segment Filter} (h : Reads member [l] s) :
    Reads segment [.mark .point, l] s := by
  intro source toks rest htoks
  obtain ⟨_, _, after, rfl, hafter⟩ := exists_of_lexemes htoks
  obtain ⟨p, hp, hvalue, hlexemes⟩ := h source after rest hafter
  refine ⟨p.from_ (Nat.le_succ _), ?_, hvalue, hlexemes⟩
  rw [segment, hp]
  rfl

theorem Reads.descentMember {l : Lexeme} {s : Segment Filter} (h : Reads member [l] s)
    (hl : l ≠ .mark .openBracket) : Reads segment [.mark .descend, l] (.descent s) := by
  intro source toks rest htoks
  obtain ⟨_, _, after, rfl, hafter⟩ := exists_of_lexemes htoks
  obtain ⟨p, hp, rfl, hlexemes⟩ := h source after rest hafter
  obtain ⟨_, _, behind, rfl, _⟩ := exists_of_lexemes hafter
  refine ⟨(p.map Segment.descent).from_ (Nat.le_succ _), ?_, rfl, hlexemes⟩
  rw [segment, hp]
  · rfl
  · rintro offset size rest ⟨⟩
    exact hl rfl

/-- A member is one lexeme, which is no mark that anything else begins with. -/
theorem member_reads (toks : List Token) :
    Yields (fun p => ∃ l, toks.map Token.lexeme = l :: p.rest.map Token.lexeme ∧
        l ≠ .mark .current ∧ l ≠ .mark .openBracket ∧ Reads (member (P := Filter)) [l] p.value)
      (member source toks) := by
  have hreads : ∀ {l : Lexeme} {s : Segment Filter}, (∀ (source : String) offset size rest,
      ∃ h, member source (⟨l, offset, size⟩ :: rest) = .ok ⟨s, rest, h⟩) →
      Reads member [l] s := by
    intro l s h source toks rest htoks
    obtain ⟨offset, size, after, rfl, hafter⟩ := exists_of_lexemes htoks
    obtain ⟨hshorter, heq⟩ := h source offset size after
    exact ⟨_, heq, rfl, hafter⟩
  unfold member
  split
  · exact .ok ⟨_, rfl, by simp, by simp, hreads fun _ _ _ _ => ⟨Nat.lt_succ_self _, rfl⟩⟩
  · exact .ok ⟨_, rfl, by simp, by simp, hreads fun _ _ _ _ => ⟨Nat.lt_succ_self _, rfl⟩⟩
  · exact .ok ⟨_, rfl, by simp, by simp, hreads fun _ _ _ _ => ⟨Nat.lt_succ_self _, rfl⟩⟩
  · exact .fail

/-- The lexemes of a segment: what stands in its bracket, if the mark of the candidate
stands anywhere in it. -/
inductive IsSegment : List Lexeme → Prop where
  | plain {ls : List Lexeme} (h : .mark .current ∉ ls) : IsSegment ls
  | bracket {ls : List Lexeme} (h : IsContents ls) :
    IsSegment (.mark .openBracket :: (ls ++ [.mark .closeBracket]))
  | descent {ls : List Lexeme} (h : IsContents ls) :
    IsSegment (.mark .descend :: .mark .openBracket :: (ls ++ [.mark .closeBracket]))

/-- Whatever is read as a segment is read so wherever it stands. -/
theorem segment_reads (toks : List Token) :
    Yields (fun p => ∃ ls, toks.map Token.lexeme = ls ++ p.rest.map Token.lexeme ∧
        IsSegment ls ∧ Reads segment ls p.value)
      (segment source toks) := by
  intro p hp
  unfold segment at hp
  split at hp
  · obtain ⟨m, hm, hp⟩ := ok_of_bind hp
    obtain ⟨l, hlexemes, hcurrent, -, hread⟩ := member_reads source _ m hm
    cases hp
    exact ⟨[.mark .point, l], congrArg (Lexeme.mark .point :: ·) hlexemes,
      .plain (by simpa using Ne.symm hcurrent), hread.point⟩
  · obtain ⟨b, hb, hp⟩ := ok_of_bind hp
    obtain ⟨ls, hlexemes, hform, hread⟩ := bracket_reads source _ b hb
    cases hp
    refine ⟨_, ?_, .descent hform, hread.descent⟩
    rw [List.map_cons, List.map_cons, hlexemes]
    simp [Parsed.from_, Parsed.map]
  · obtain ⟨m, hm, hp⟩ := ok_of_bind hp
    obtain ⟨l, hlexemes, hcurrent, hopen, hread⟩ := member_reads source _ m hm
    cases hp
    exact ⟨[.mark .descend, l], congrArg (Lexeme.mark .descend :: ·) hlexemes,
      .plain (by simpa using Ne.symm hcurrent), hread.descentMember hopen⟩
  · obtain ⟨b, hb, hp⟩ := ok_of_bind hp
    obtain ⟨ls, hlexemes, hform, hread⟩ := bracket_reads source _ b hb
    cases hp
    refine ⟨_, ?_, .bracket hform, hread.bracket⟩
    rw [List.map_cons, hlexemes]
    simp [Parsed.from_]
  · cases toks <;> cases hp

end Conduit.Query
