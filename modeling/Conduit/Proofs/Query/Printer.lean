import Conduit.Proofs.Query.Token
import Conduit.Query.Reader

/-!
# Reading a written query

Each segment that is no filter can be written in brackets: a name in quotes,
an index, a slice with its missing parts left out, a star, several selectors
with commas between them, and two points in front for a descent. A query
written so is read into the segments it was written from.

The proof goes through the lexemes: the text is scanned into them, and each
rule of the grammar takes its own off the front. A rule about a part that may
be missing says what must not come next.
-/

namespace Conduit

/-! ## Segments that can be written -/

/-- A slice whose numbers can be written and which does not stand still. -/
structure Slice.IsExpressible (s : Slice) : Prop where
  start : ∀ i ∈ s.start, Text.IsShort i
  stop : ∀ i ∈ s.stop, Text.IsShort i
  step : ∀ i ∈ s.step, Text.IsShort i ∧ i ≠ 0

namespace Segment

variable {P : Type}

/-- A name, an index or a slice. -/
def IsSelector : Segment P → Prop
  | .step (.field _) => True
  | .step (.index i) => Text.IsShort i
  | .slice s => s.IsExpressible
  | _ => False

/-- What can stand between commas: a name, an index, or a slice that does not stand still. -/
def IsListable : Segment P → Prop
  | .step _ => True
  | .slice s => s.step ≠ some 0
  | _ => False

theorem IsSelector.isListable {s : Segment P} (h : s.IsSelector) : s.IsListable := by
  cases s with
  | step s => trivial
  | slice s => exact fun hzero => (h.step 0 hzero).2 rfl
  | _ => exact h.elim

/-- What fits in brackets; one selector needs no selection. -/
def IsBracket : Segment P → Prop
  | .wildcard => True
  | .selection ss => 2 ≤ ss.length ∧ ∀ s ∈ ss, s.IsSelector
  | s => s.IsSelector

def IsExpressible : Segment P → Prop
  | .descent s => s.IsBracket
  | s => s.IsBracket

end Segment

namespace Query

/-! ## Writing -/

section Writing

variable {P : Type}

def integerText (n : Option Int) : List Char := (n.map fun i => (toString i).toList).getD []

/-- A slice without a step is written with its second colon if `keep` says so. -/
def sliceText (keep : Slice → Bool) (s : Slice) : List Char :=
  integerText s.start ++ ':' :: (integerText s.stop ++
    if s.step.isSome || keep s then ':' :: integerText s.step else [])

def selectorText (keep : Slice → Bool) : Segment P → List Char
  | .step (.field name) => '\'' :: (Text.escape '\'' name.toList ++ ['\''])
  | .step (.index i) => (toString i).toList
  | .slice s => sliceText keep s
  | _ => []

def contentsText (keep : Slice → Bool) : Segment P → List Char
  | .wildcard => ['*']
  | .selection [] => []
  | .selection (s :: rest) =>
    selectorText keep s ++ rest.flatMap fun r => ',' :: selectorText keep r
  | s => selectorText keep s

def segmentText (keep : Slice → Bool) : Segment P → List Char
  | .descent s => '.' :: '.' :: '[' :: (contentsText keep s ++ [']'])
  | s => '[' :: (contentsText keep s ++ [']'])

/-- The text of a query. -/
def text (keep : Slice → Bool) (ss : List (Segment P)) : String :=
  String.ofList ('$' :: ss.flatMap (segmentText keep))

/-! The same in lexemes. -/

def integerLexemes (n : Option Int) : List Lexeme := (n.map fun i => .number (.int i)).toList

/-- A slice from its first colon on. -/
def sliceTail (keep : Slice → Bool) (s : Slice) : List Lexeme :=
  .mark .colon :: (integerLexemes s.stop ++
    if s.step.isSome || keep s then .mark .colon :: integerLexemes s.step else [])

def sliceLexemes (keep : Slice → Bool) (s : Slice) : List Lexeme :=
  integerLexemes s.start ++ sliceTail keep s

def selectorLexemes (keep : Slice → Bool) : Segment P → List Lexeme
  | .step (.field name) => [.string name]
  | .step (.index i) => [.number (.int i)]
  | .slice s => sliceLexemes keep s
  | _ => []

def contentsLexemes (keep : Slice → Bool) : Segment P → List Lexeme
  | .wildcard => [.mark .star]
  | .selection [] => []
  | .selection (s :: rest) =>
    selectorLexemes keep s ++ rest.flatMap fun r => .mark .comma :: selectorLexemes keep r
  | s => selectorLexemes keep s

def segmentLexemes (keep : Slice → Bool) : Segment P → List Lexeme
  | .descent s =>
    .mark .descend :: .mark .openBracket :: (contentsLexemes keep s ++ [.mark .closeBracket])
  | s => .mark .openBracket :: (contentsLexemes keep s ++ [.mark .closeBracket])

end Writing

/-! ## Scanning what is written -/

section Scanning

variable {P : Type} {keep : Slice → Bool} {cs : List Char} {ls : List Lexeme}

theorem scans_integer {n : Option Int} (h : ∀ i ∈ n, Text.IsShort i) (hend : EndsInteger cs)
    (hcs : Scans cs ls) : Scans (integerText n ++ cs) (integerLexemes n ++ ls) := by
  cases n with
  | none => exact hcs
  | some i => exact hcs.integer (h i rfl) hend

theorem scans_slice {s : Slice} (h : s.IsExpressible) (hend : EndsInteger cs) (hcs : Scans cs ls) :
    Scans (sliceText keep s ++ cs) (sliceLexemes keep s ++ ls) := by
  have hcolon : ∀ {cs : List Char} {ls : List Lexeme}, Scans cs ls →
      Scans (':' :: cs) (.mark .colon :: ls) := fun hcs => hcs.mark (m := .colon) rfl
  have hend' : ∀ {cs : List Char}, EndsInteger (':' :: cs) := .cons (by decide)
  rw [sliceText, sliceLexemes, sliceTail, List.append_assoc, List.append_assoc, List.cons_append,
    List.cons_append, List.append_assoc, List.append_assoc]
  refine scans_integer h.start hend' (hcolon ?_)
  split
  · exact scans_integer h.stop hend'
      (hcolon (scans_integer (fun i hi => (h.step i hi).1) hend hcs))
  · exact scans_integer h.stop hend hcs

theorem scans_selector {s : Segment P} (h : s.IsSelector) (hend : EndsInteger cs)
    (hcs : Scans cs ls) : Scans (selectorText keep s ++ cs) (selectorLexemes keep s ++ ls) := by
  cases s with
  | step s =>
      cases s with
      | field name =>
          rw [selectorText, List.cons_append, List.append_assoc]
          exact hcs.quoted name
      | index i => exact hcs.integer h hend
  | slice s => exact scans_slice h hend hcs
  | _ => exact h.elim

theorem scans_more {rest : List (Segment P)} (h : ∀ s ∈ rest, s.IsSelector) (hend : EndsInteger cs)
    (hcs : Scans cs ls) :
    Scans ((rest.flatMap fun r => ',' :: selectorText keep r) ++ cs)
        ((rest.flatMap fun r => .mark .comma :: selectorLexemes keep r) ++ ls) ∧
      EndsInteger ((rest.flatMap fun r => ',' :: selectorText keep r) ++ cs) := by
  induction rest with
  | nil => exact ⟨hcs, hend⟩
  | cons s rest ih =>
      obtain ⟨hs, hrest⟩ := List.forall_mem_cons.mp h
      obtain ⟨hmore, hmoreEnd⟩ := ih hrest
      rw [List.flatMap_cons, List.flatMap_cons, List.append_assoc, List.append_assoc,
        List.cons_append, List.cons_append]
      exact ⟨(scans_selector hs hmoreEnd hmore).mark (m := .comma) rfl, .cons (by decide)⟩

theorem scans_contents {s : Segment P} (h : s.IsBracket) (hend : EndsInteger cs)
    (hcs : Scans cs ls) : Scans (contentsText keep s ++ cs) (contentsLexemes keep s ++ ls) := by
  cases s with
  | wildcard => exact hcs.mark (m := .star) rfl
  | selection ss =>
      cases ss with
      | nil => exact hcs
      | cons s rest =>
          obtain ⟨hs, hrest⟩ := List.forall_mem_cons.mp h.2
          obtain ⟨hmore, hmoreEnd⟩ := scans_more hrest hend hcs
          rw [contentsText, contentsLexemes, List.append_assoc, List.append_assoc]
          exact scans_selector hs hmoreEnd hmore
  | step s => exact scans_selector (s := .step s) h hend hcs
  | slice s => exact scans_selector (s := .slice (P := P) s) h hend hcs
  | filter p => exact h.elim
  | descent s => exact h.elim

theorem scans_bracket {s : Segment P} (h : s.IsBracket) (hcs : Scans cs ls) :
    Scans ('[' :: (contentsText keep s ++ [']']) ++ cs)
      (.mark .openBracket :: (contentsLexemes keep s ++ [.mark .closeBracket]) ++ ls) := by
  rw [List.cons_append, List.cons_append, List.append_assoc, List.append_assoc]
  exact (scans_contents h (.cons (by decide)) (hcs.mark (m := .closeBracket) rfl)).mark
    (m := .openBracket) rfl

theorem scans_segment {s : Segment P} (h : s.IsExpressible) (hcs : Scans cs ls) :
    Scans (segmentText keep s ++ cs) (segmentLexemes keep s ++ ls) := by
  cases s with
  | descent s => exact (scans_bracket (s := s) h hcs).mark (m := .descend) rfl
  | wildcard => exact scans_bracket (s := .wildcard (P := P)) h hcs
  | selection ss => exact scans_bracket (s := .selection ss) h hcs
  | step s => exact scans_bracket (s := .step (P := P) s) h hcs
  | slice s => exact scans_bracket (s := .slice (P := P) s) h hcs
  | filter p => exact h.elim

theorem scans_segments {ss : List (Segment P)} (h : ∀ s ∈ ss, s.IsExpressible) :
    Scans (ss.flatMap (segmentText keep)) (ss.flatMap (segmentLexemes keep)) := by
  induction ss with
  | nil => exact .nil
  | cons s rest ih =>
      obtain ⟨hs, hrest⟩ := List.forall_mem_cons.mp h
      exact scans_segment hs (ih hrest)

end Scanning

/-! ## Reading what was scanned -/

section Reading

variable {P : Type} {keep : Slice → Bool} {toks : List Token} {ls : List Lexeme} (source : String)

theorem exists_of_lexemes {l : Lexeme} (h : toks.map Token.lexeme = l :: ls) :
    ∃ offset size rest, toks = ⟨l, offset, size⟩ :: rest ∧ rest.map Token.lexeme = ls := by
  obtain ⟨t, rest, rfl, rfl, hrest⟩ := List.map_eq_cons_iff.mp h
  exact ⟨t.offset, t.size, rest, rfl, hrest⟩

/-- A rule reads the value and leaves tokens of the given lexemes. -/
def Leaves {α : Type} (x : Except Error (Parsed α toks)) (a : α) (ls : List Lexeme) : Prop :=
  ∃ p, x = .ok p ∧ p.value = a ∧ p.rest.map Token.lexeme = ls

/-- What stands behind a selector. -/
def EndsSelector (ls : List Lexeme) : Prop :=
  ls.head? = some (.mark .comma) ∨ ls.head? = some (.mark .closeBracket)

theorem integer?_written {n : Option Int} (h : toks.map Token.lexeme = integerLexemes n ++ ls)
    (hls : ∀ m, ls.head? ≠ some (.number m)) :
    ∃ after, integer? source toks = .ok (n, after) ∧ after.1.map Token.lexeme = ls := by
  cases n with
  | some i =>
      obtain ⟨_, _, rest, rfl, hrest⟩ := exists_of_lexemes h
      exact ⟨_, rfl, hrest⟩
  | none =>
      have hls : ls = toks.map Token.lexeme := h.symm
      subst hls
      unfold integer?
      split
      · next n _ _ rest => exact absurd rfl (hls (.int n))
      · next x _ _ rest => exact absurd rfl (hls (.double x))
      · exact ⟨_, rfl, rfl⟩

theorem sliceStep_written {s : Slice} (hs : s.step ≠ some 0)
    (h : toks.map Token.lexeme =
      (if s.step.isSome || keep s then .mark .colon :: integerLexemes s.step else []) ++ ls)
    (hls : EndsSelector ls) :
    ∃ after, sliceStep source toks = .ok (s.step, after) ∧ after.1.map Token.lexeme = ls := by
  split at h
  · obtain ⟨_, _, rest, rfl, hrest⟩ := exists_of_lexemes h
    obtain ⟨after, hafter, hlexemes⟩ := integer?_written source hrest
      (by rcases hls with hls | hls <;> simp [hls])
    refine ⟨⟨after.1, Nat.le_succ_of_le after.2⟩, ?_, hlexemes⟩
    rw [sliceStep, hafter]
    exact if_neg hs
  · next hstep =>
      have hnone : s.step = none := by simp_all
      have hls' : ls = toks.map Token.lexeme := h.symm
      subst hls'
      unfold sliceStep
      split
      · exact absurd hls (by simp [EndsSelector])
      · exact ⟨_, by rw [hnone], rfl⟩

theorem sliceFrom_written {s : Slice} (hs : s.step ≠ some 0)
    (h : toks.map Token.lexeme = sliceTail keep s ++ ls) (hls : EndsSelector ls) :
    Leaves (sliceFrom source s.start toks) s ls := by
  rw [sliceTail, List.cons_append, List.append_assoc] at h
  obtain ⟨_, _, rest, rfl, hrest⟩ := exists_of_lexemes h
  obtain ⟨after, hafter, hlexemes⟩ := integer?_written source hrest <| by
    split
    · simp
    · rcases hls with hls | hls <;> simp [hls]
  obtain ⟨last, hlast, hlastLexemes⟩ := sliceStep_written source hs hlexemes hls
  refine ⟨⟨s, last.1, Nat.lt_succ_of_le (Nat.le_trans last.2 after.2)⟩, ?_, rfl, hlastLexemes⟩
  rw [sliceFrom, hafter]
  show (sliceStep source after.1 >>= _) = _
  rw [hlast]
  rfl

theorem selector_written {s : Segment P} (hs : s.IsListable)
    (h : toks.map Token.lexeme = selectorLexemes keep s ++ ls) (hls : EndsSelector ls) :
    Leaves (selector source toks) s ls := by
  cases s with
  | step s =>
      cases s with
      | field name =>
          obtain ⟨_, _, rest, rfl, hrest⟩ := exists_of_lexemes h
          exact ⟨_, rfl, rfl, hrest⟩
      | index i =>
          obtain ⟨_, _, rest, rfl, rfl⟩ := exists_of_lexemes h
          refine ⟨⟨.step (.index i), rest, Nat.lt_succ_self _⟩, ?_, rfl, rfl⟩
          rw [selector]
          rintro o w after rfl
          exact absurd hls (by simp [EndsSelector])
  | slice s =>
      rw [selectorLexemes, sliceLexemes, List.append_assoc] at h
      cases hstart : s.start with
      | none =>
          rw [hstart] at h
          obtain ⟨p, hp, rfl, hlexemes⟩ := sliceFrom_written source hs h hls
          obtain ⟨_, _, rest, rfl, _⟩ := exists_of_lexemes h
          refine ⟨p.map Segment.slice, ?_, rfl, hlexemes⟩
          rw [hstart] at hp
          show (do .ok ((← sliceFrom source none _).map Segment.slice)) = _
          rw [hp]
          rfl
      | some i =>
          rw [hstart] at h
          obtain ⟨_, _, rest, rfl, hrest⟩ := exists_of_lexemes h
          obtain ⟨p, hp, rfl, hlexemes⟩ := sliceFrom_written source hs hrest hls
          obtain ⟨_, _, rest, rfl, _⟩ := exists_of_lexemes hrest
          refine ⟨(p.map Segment.slice).from_ (Nat.le_succ _), ?_, rfl, hlexemes⟩
          rw [hstart] at hp
          rw [selector, hp]
          rfl
  | _ => exact hs.elim

/-- The lexemes of a selector, with the second colon of a slice or without it. -/
def SpellsSelector (ls : List Lexeme) (s : Segment P) : Prop :=
  s.IsListable ∧ ∃ keep, ls = selectorLexemes keep s

theorem moreSelectors_written {parts : List (List Lexeme × Segment P)}
    (hall : ∀ p ∈ parts, SpellsSelector p.1 p.2)
    (h : toks.map Token.lexeme = (parts.flatMap fun p => .mark .comma :: p.1) ++
      .mark .closeBracket :: ls) :
    ∃ after, moreSelectors source toks = .ok (parts.map Prod.snd, after) ∧
      after.1.map Token.lexeme = .mark .closeBracket :: ls := by
  induction parts generalizing toks with
  | nil =>
      obtain ⟨_, _, after, rfl, hafter⟩ := exists_of_lexemes h
      refine ⟨⟨_, Nat.le_refl _⟩, ?_, h⟩
      rw [moreSelectors]
      · rfl
      · rintro offset size rest ⟨⟩
  | cons part rest ih =>
      obtain ⟨⟨hs, keep, hkeep⟩, hrest⟩ := List.forall_mem_cons.mp hall
      rw [List.flatMap_cons, List.append_assoc, hkeep] at h
      obtain ⟨_, _, after, rfl, hafter⟩ := exists_of_lexemes h
      obtain ⟨p, hp, hvalue, hlexemes⟩ := selector_written source hs hafter <| by
        cases rest with
        | nil => exact .inr rfl
        | cons r more => exact .inl rfl
      obtain ⟨last, hlast, hlastLexemes⟩ := ih hrest hlexemes
      refine ⟨⟨last.1, Nat.le_trans last.2 (Nat.le_succ_of_le (Nat.le_of_lt p.shorter))⟩, ?_,
        hlastLexemes⟩
      rw [moreSelectors, hp, List.map_cons, ← hvalue]
      show (moreSelectors (P := P) source p.rest >>= _) = _
      rw [hlast]
      rfl

theorem selectors_written {first : List Lexeme × Segment P}
    {parts : List (List Lexeme × Segment P)}
    (hall : ∀ p ∈ first :: parts, SpellsSelector p.1 p.2)
    (h : toks.map Token.lexeme = first.1 ++
      ((parts.flatMap fun p => .mark .comma :: p.1) ++ .mark .closeBracket :: ls)) :
    Leaves (selectors source toks)
      (if parts.isEmpty then first.2 else .selection (first.2 :: parts.map Prod.snd))
      (.mark .closeBracket :: ls) := by
  obtain ⟨⟨hs, keep, hkeep⟩, hrest⟩ := List.forall_mem_cons.mp hall
  rw [hkeep] at h
  obtain ⟨p, hp, hvalue, hlexemes⟩ := selector_written source hs h <| by
    cases parts with
    | nil => exact .inr rfl
    | cons r more => exact .inl rfl
  obtain ⟨last, hlast, hlastLexemes⟩ := moreSelectors_written source hrest hlexemes
  refine ⟨⟨if parts.isEmpty then first.2 else .selection (first.2 :: parts.map Prod.snd), last.1,
    Nat.lt_of_le_of_lt last.2 p.shorter⟩, ?_, rfl, hlastLexemes⟩
  rw [selectors, hp, ← hvalue]
  show (moreSelectors (P := P) source p.rest >>= _) = _
  rw [hlast]
  cases parts <;> rfl

theorem SpellsSelector.first {ls : List Lexeme} {s : Segment P} (h : SpellsSelector ls s) :
    ∃ l rest, ls = l :: rest ∧ l ≠ .mark .star ∧ l ≠ .mark .question := by
  obtain ⟨hs, keep, rfl⟩ := h
  cases s with
  | step s => cases s <;> exact ⟨_, _, rfl, by simp, by simp⟩
  | slice s =>
      rw [selectorLexemes, sliceLexemes]
      cases s.start <;> exact ⟨_, _, rfl, by simp, by simp⟩
  | _ => exact hs.elim

/-- What is no star and no filter is left to the rule of selectors. -/
theorem contents_selectors {first : List Lexeme × Segment Filter}
    {parts : List (List Lexeme × Segment Filter)}
    (hall : ∀ p ∈ first :: parts, SpellsSelector p.1 p.2)
    (h : toks.map Token.lexeme = first.1 ++
      ((parts.flatMap fun p => .mark .comma :: p.1) ++ .mark .closeBracket :: ls)) :
    Leaves (contents source toks)
      (if parts.isEmpty then first.2 else .selection (first.2 :: parts.map Prod.snd))
      (.mark .closeBracket :: ls) := by
  have hselectors := selectors_written source hall h
  obtain ⟨l, more, hl, hstar, hquestion⟩ := (hall first List.mem_cons_self).first
  rw [hl] at h
  obtain ⟨_, _, after, rfl, _⟩ := exists_of_lexemes h
  rw [contents]
  · exact hselectors
  · rintro offset size rest ⟨⟩
    exact hstar rfl
  · rintro offset size rest ⟨⟩
    exact hquestion rfl

theorem contents_written {s : Segment Filter} (hs : s.IsBracket)
    (h : toks.map Token.lexeme = contentsLexemes keep s ++ .mark .closeBracket :: ls) :
    Leaves (contents source toks) s (.mark .closeBracket :: ls) := by
  have hspells : ∀ {s : Segment Filter}, s.IsSelector → SpellsSelector (selectorLexemes keep s) s :=
    fun hs => ⟨hs.isListable, keep, rfl⟩
  have hsingle : ∀ {s : Segment Filter}, s.IsSelector →
      toks.map Token.lexeme = selectorLexemes keep s ++ .mark .closeBracket :: ls →
      Leaves (contents source toks) s (.mark .closeBracket :: ls) := by
    intro s hs h
    have hall : ∀ p ∈ [(selectorLexemes keep s, s)], SpellsSelector p.1 p.2 :=
      List.forall_mem_singleton.mpr (hspells hs)
    exact contents_selectors source hall h
  cases s with
  | wildcard =>
      obtain ⟨_, _, rest, rfl, hrest⟩ := exists_of_lexemes h
      exact ⟨_, rfl, rfl, hrest⟩
  | selection ss =>
      obtain ⟨hlength, hall⟩ := hs
      match ss, hlength with
      | s :: r :: rest, _ =>
          have hparts : ∀ p ∈ (s :: r :: rest).map fun s => (selectorLexemes keep s, s),
              SpellsSelector p.1 p.2 := List.forall_mem_map.mpr fun s hs => hspells (hall s hs)
          rw [contentsLexemes, List.append_assoc, ← List.flatMap_map] at h
          have hread := contents_selectors source hparts (by simpa [List.flatMap_map] using h)
          simpa [Function.comp_def] using hread
  | step s => exact hsingle (s := .step s) hs h
  | slice s => exact hsingle (s := .slice s) hs h
  | _ => exact hs.elim

theorem bracket_written {s : Segment Filter} (hs : s.IsBracket)
    (h : toks.map Token.lexeme = contentsLexemes keep s ++ [.mark .closeBracket] ++ ls) :
    Leaves (bracket source toks) s ls := by
  rw [List.append_assoc] at h
  obtain ⟨p, hp, rfl, hlexemes⟩ := contents_written source hs h
  obtain ⟨offset, size, rest, hrest, rfl⟩ := exists_of_lexemes hlexemes
  have hclose : ∃ close, expect source .closeBracket "']'" p.rest = .ok close ∧
      close.rest = rest := by
    rw [hrest]
    exact ⟨_, rfl, rfl⟩
  obtain ⟨close, hclose, rfl⟩ := hclose
  refine ⟨⟨p.value, close.rest, Nat.lt_trans close.shorter p.shorter⟩, ?_, rfl, rfl⟩
  rw [bracket, hp]
  show (do let close ← expect source .closeBracket "']'" p.rest; _) = _
  rw [hclose]
  rfl

theorem segment_written {s : Segment Filter} (hs : s.IsExpressible)
    (h : toks.map Token.lexeme = segmentLexemes keep s ++ ls) :
    Leaves (segment source toks) s ls := by
  have hbracket : ∀ {s : Segment Filter}, s.IsBracket →
      toks.map Token.lexeme =
        .mark .openBracket :: (contentsLexemes keep s ++ [.mark .closeBracket]) ++ ls →
      Leaves (segment source toks) s ls := by
    intro s hs h
    obtain ⟨_, _, rest, rfl, hrest⟩ := exists_of_lexemes h
    obtain ⟨p, hp, hvalue, hlexemes⟩ := bracket_written source hs hrest
    refine ⟨p.from_ (Nat.le_succ _), ?_, hvalue, hlexemes⟩
    rw [segment, hp]
    rfl
  cases s with
  | descent s =>
      obtain ⟨_, _, rest, rfl, hrest⟩ := exists_of_lexemes h
      obtain ⟨_, _, after, rfl, hafter⟩ := exists_of_lexemes hrest
      obtain ⟨p, hp, rfl, hlexemes⟩ := bracket_written source hs hafter
      refine ⟨(p.map Segment.descent).from_ (Nat.le_succ_of_le (Nat.le_succ _)), ?_, rfl,
        hlexemes⟩
      rw [segment, hp]
      rfl
  | wildcard => exact hbracket hs h
  | selection ss => exact hbracket hs h
  | step s => exact hbracket hs h
  | slice s => exact hbracket hs h
  | filter p => exact hs.elim

theorem segments_written {ss : List (Segment Filter)} (h : ∀ s ∈ ss, s.IsExpressible)
    (htoks : toks.map Token.lexeme = ss.flatMap (segmentLexemes keep)) :
    segments source toks = .ok ss := by
  induction ss generalizing toks with
  | nil =>
      rw [List.map_eq_nil_iff.mp htoks, segments]
  | cons s rest ih =>
      obtain ⟨hs, hrest⟩ := List.forall_mem_cons.mp h
      obtain ⟨p, hp, rfl, hlexemes⟩ := segment_written source hs htoks
      cases toks with
      | nil => exact absurd p.shorter (Nat.not_lt_zero _)
      | cons t more =>
          rw [segments, hp]
          show (do let more ← segments source p.rest; _) = _
          rw [ih hrest hlexemes]
          rfl

end Reading

/-! ## Queries -/

/-- After the mark of the root, a query is read as what its text is scanned into. -/
theorem parse_root {text : String} {cs : List Char} {ls : List Lexeme}
    (htext : text.toList = '$' :: cs) (h : Scans cs ls) :
    ∃ toks, toks.map Token.lexeme = ls ∧ parse text = segments text toks := by
  have hscans : Scans text.toList (.mark .root :: ls) := by
    rw [htext]
    exact h.mark (m := .root) rfl
  obtain ⟨toks, htoks, hlexemes⟩ := hscans text (text.length + 1) 0 <| by
    rw [String.length_toList]
    exact Nat.lt_succ_self _
  obtain ⟨_, _, rest, rfl, hrest⟩ := exists_of_lexemes hlexemes
  have hblank : (text.toList.all Text.isBlank) = false := by
    rw [htext]
    rfl
  refine ⟨rest, hrest, ?_⟩
  rw [parse, hblank, scan, htoks]
  rfl

/-- Any segments without filters have a text in brackets, whether or not the
second colon of a slice is kept where no step follows, and reading it gives
them back. -/
theorem parse_text (keep : Slice → Bool) {ss : List (Segment Filter)}
    (h : ∀ s ∈ ss, s.IsExpressible) : parse (text keep ss) = .ok ss := by
  have htext : (text keep ss).toList = '$' :: ss.flatMap (segmentText keep) :=
    String.toList_ofList
  have hscans : Scans (text keep ss).toList (.mark .root :: ss.flatMap (segmentLexemes keep)) := by
    rw [htext]
    exact (scans_segments h).mark (m := .root) rfl
  obtain ⟨toks, htoks, hlexemes⟩ := hscans (text keep ss) ((text keep ss).length + 1) 0 <| by
    rw [String.length_toList]
    exact Nat.lt_succ_self _
  obtain ⟨_, _, rest, rfl, hrest⟩ := exists_of_lexemes hlexemes
  have hblank : ((text keep ss).toList.all Text.isBlank) = false := by
    rw [htext]
    rfl
  rw [parse, hblank, scan, htoks]
  exact segments_written _ h hrest

/-- A name that needs escapes, a slice that runs backwards, and anywhere below
it one of several selectors. -/
def archiveSegments : List (Segment Filter) :=
  [.step (.field "it's\n\\"), .slice ⟨some 9, none, some (-2)⟩,
    .descent (.selection [.step (.field ""), .step (.index (-1)), .slice ⟨none, some 3, none⟩]),
    .wildcard]

example : text (fun _ => true) archiveSegments =
    "$['it\\'s\n\\\\'][9::-2]..['',-1,:3:][*]" := by
  decide +kernel

theorem parse_text_archive :
    (∀ s ∈ archiveSegments, s.IsExpressible) ∧
      parse (text (fun _ => true) archiveSegments) = .ok archiveSegments := by
  have hshort : ∀ i ∈ [9, -2, -1, 3], Text.IsShort i := by
    simp only [Text.isShort_iff]
    decide
  have hback : Slice.IsExpressible ⟨some 9, none, some (-2)⟩ := by
    refine ⟨?_, ?_, ?_⟩ <;> simp [hshort]
  have hfront : Slice.IsExpressible ⟨none, some 3, none⟩ := by
    refine ⟨?_, ?_, ?_⟩ <;> simp [hshort]
  have hexpressible : ∀ s ∈ archiveSegments, s.IsExpressible := by
    simp only [archiveSegments, List.forall_mem_cons]
    refine ⟨trivial, hback, ⟨by decide, ?_⟩, trivial, by simp⟩
    simp only [List.forall_mem_cons]
    exact ⟨trivial, hshort (-1) (by decide), hfront, by simp⟩
  exact ⟨hexpressible, parse_text _ hexpressible⟩

end Query

end Conduit
