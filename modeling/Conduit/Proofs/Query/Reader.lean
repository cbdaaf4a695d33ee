import Conduit.Query.Reader

/-!
# Filters can be read again

The paths inside a filter are kept as texts as well, and whoever evaluates
the filter from its texts reads them anew. Reading gives them back: each path
that the parser of queries leaves in a filter is what its text is read into,
wherever the filter stands in the query.

The rules of the grammar call each other, so the induction is the one that
comes with them; what a rule yields is passed on by `Yields`.
-/

namespace Conduit

/-! ## Paths -/

namespace DotPath

/-- A path that its text is read into. -/
def Rereads (p : DotPath) : Prop := parse p.text = .ok p

theorem text_of_parse {text : String} {p : DotPath} (h : parse text = .ok p) : p.text = text := by
  have hsteps : ∀ {head : String} {r : Except PathError (List Step)},
      (r >>= fun steps => Except.ok (⟨text, head, steps⟩ : DotPath)) = .ok p → p.text = text := by
    intro head r hr
    cases r with
    | error e => cases hr
    | ok steps =>
        cases hr
        rfl
  unfold parse at h
  split at h
  · cases h
  · split at h
    · cases h
    · cases h
    · exact hsteps h
  · cases h
  · split at h
    · exact hsteps h
    · cases h

theorem rereads_of_parse {text : String} {p : DotPath} (h : parse text = .ok p) : p.Rereads := by
  rw [Rereads, text_of_parse h]
  exact h

end DotPath

namespace Query

/-! ## Filters -/

namespace Filter

mutual

/-- The paths in a filter. -/
def paths : Filter → List DotPath
  | .literal _ => []
  | .path p => [p]
  | .present p => [p]
  | .compare _ left right => paths left ++ paths right
  | .not operand => paths operand
  | .and operands => pathsAll operands
  | .or operands => pathsAll operands

def pathsAll : List Filter → List DotPath
  | [] => []
  | f :: rest => paths f ++ pathsAll rest

end

/-- A filter all of whose paths are what their texts are read into. -/
def Rereads (f : Filter) : Prop := ∀ p ∈ f.paths, p.Rereads

theorem mem_pathsAll {p : DotPath} {fs : List Filter} :
    p ∈ pathsAll fs ↔ ∃ f ∈ fs, p ∈ f.paths := by
  induction fs with
  | nil => simp [pathsAll]
  | cons f rest ih => simp [pathsAll, ih]

theorem rereads_literal (v : Value) : (literal v).Rereads := by simp [Rereads, paths]

theorem rereads_path {p : DotPath} (h : p.Rereads) : (path p).Rereads := by
  simpa [Rereads, paths] using h

theorem rereads_present {p : DotPath} (h : p.Rereads) : (present p).Rereads := by
  simpa [Rereads, paths] using h

theorem rereads_compare {op : Comparison} {left right : Filter} (hl : left.Rereads)
    (hr : right.Rereads) : (compare op left right).Rereads := by
  simp only [Rereads, paths, List.forall_mem_append]
  exact ⟨hl, hr⟩

theorem rereads_not {f : Filter} (h : f.Rereads) : (not f).Rereads := by
  simpa [Rereads, paths] using h

theorem rereads_and {fs : List Filter} (h : ∀ f ∈ fs, f.Rereads) : (and fs).Rereads := by
  intro p hp
  rw [paths, mem_pathsAll] at hp
  obtain ⟨f, hf, hp⟩ := hp
  exact h f hf p hp

theorem rereads_or {fs : List Filter} (h : ∀ f ∈ fs, f.Rereads) : (or fs).Rereads := by
  intro p hp
  rw [paths, mem_pathsAll] at hp
  obtain ⟨f, hf, hp⟩ := hp
  exact h f hf p hp

end Filter

/-! ## Rules -/

/-- Whatever a rule reads, if it reads something, is good. -/
def Yields {α : Type} (Good : α → Prop) (r : Except Error α) : Prop := ∀ a, r = .ok a → Good a

namespace Yields

variable {α β : Type} {P : α → Prop} {Q : β → Prop}

theorem ok {a : α} (h : P a) : Yields P (.ok a) := by
  rintro b hb
  cases hb
  exact h

theorem error {e : Error} : Yields P (.error e) := by
  intro a ha
  cases ha

theorem fail {source message : String} {toks : List Token} :
    Yields P (Query.fail source message toks) := by
  cases toks <;> exact error

theorem bind {x : Except Error α} {f : α → Except Error β} (hx : Yields P x)
    (hf : ∀ a, P a → Yields Q (f a)) : Yields Q (x >>= f) := by
  cases x with
  | error e => exact error
  | ok a => exact hf a (hx a rfl)

/-- What a rule reads does not matter. -/
theorem any {x : Except Error α} : Yields (fun _ => True) x := fun _ _ => trivial

end Yields

theorem filterPath_yields (steps : List Step) : Yields DotPath.Rereads (filterPath steps) := by
  unfold filterPath
  split
  · exact .error
  · split
    · next h => exact .ok (DotPath.rereads_of_parse h)
    · exact .error

theorem relativePath_yields (source : String) (atCandidate : Bool) (toks : List Token) :
    Yields (fun p => p.1.Rereads) (relativePath source atCandidate toks) := by
  unfold relativePath
  refine .bind .any fun ⟨steps, after⟩ _ => ?_
  dsimp only
  split
  · exact .bind (filterPath_yields _) fun p hp => .ok hp
  · exact .fail

theorem plainOperand_yields (source : String) (toks : List Token) :
    Yields (fun p => p.value.1.Rereads) (plainOperand source toks) := by
  unfold plainOperand
  split
  · exact .ok (Filter.rereads_literal _)
  · exact .ok (Filter.rereads_literal _)
  · split
    · exact .ok (Filter.rereads_literal _)
    · exact .fail
  · exact .bind (relativePath_yields _ _ _) fun p hp => .ok (Filter.rereads_path hp)
  · exact .bind (relativePath_yields _ _ _) fun p hp => .ok (Filter.rereads_path hp)
  · exact .fail

theorem standalone_rereads {f : Filter} (h : f.Rereads) : (standalone f).Rereads := by
  cases f with
  | path p => exact Filter.rereads_present (h p (by simp [Filter.paths]))
  | _ => exact h

theorem join_rereads {connective : List Filter → Filter} {first : Filter} {more : List Filter}
    (hc : ∀ {fs : List Filter}, (∀ f ∈ fs, f.Rereads) → (connective fs).Rereads)
    (hfirst : first.Rereads) (hmore : ∀ f ∈ more, f.Rereads) :
    (join connective first more).Rereads := by
  unfold join
  split
  · exact hfirst
  · exact hc (List.forall_mem_cons.mpr ⟨hfirst, hmore⟩)

/-- An operand on its own, or one that stands for the presence of its value. -/
theorem alone_rereads {before : List Token} {left : Parsed (Filter × Bool) before}
    (h : left.value.1.Rereads) :
    (left.map fun (p : Filter × Bool) => if p.2 then standalone p.1 else p.1).value.Rereads := by
  show (if left.value.2 then standalone left.value.1 else left.value.1).Rereads
  split
  · exact standalone_rereads h
  · exact h

theorem rules_yield (source : String) :
    (∀ toks, Yields (fun p => p.value.Rereads) (orFilter source toks)) ∧
    (∀ toks, Yields (fun p => ∀ f ∈ p.1, f.Rereads) (moreOr source toks)) ∧
    (∀ toks, Yields (fun p => p.value.Rereads) (andFilter source toks)) ∧
    (∀ toks, Yields (fun p => ∀ f ∈ p.1, f.Rereads) (moreAnd source toks)) ∧
    (∀ toks, Yields (fun p => p.value.Rereads) (unary source toks)) ∧
    (∀ toks, Yields (fun p => p.value.Rereads) (comparison source toks)) ∧
    ∀ toks, Yields (fun p => p.value.1.Rereads) (operand source toks) := by
  apply orFilter.mutual_induct
  case case1 =>
    intro toks hfirst hmore
    rw [orFilter]
    exact .bind hfirst fun first h => .bind (hmore first) fun more hm =>
      .ok (join_rereads Filter.rereads_or h hm)
  case case2 =>
    intro offset size rest hfirst hmore
    rw [moreOr]
    exact .bind hfirst fun first h => .bind (hmore first) fun more hm =>
      .ok (List.forall_mem_cons.mpr ⟨h, hm⟩)
  case case3 =>
    intro other hother
    rw [moreOr.eq_def]
    split
    · next offset size rest => exact absurd rfl (hother offset size rest)
    · exact .ok (by simp)
  case case4 =>
    intro toks hfirst hmore
    rw [andFilter]
    exact .bind hfirst fun first h => .bind (hmore first) fun more hm =>
      .ok (join_rereads Filter.rereads_and h hm)
  case case5 =>
    intro offset size rest hfirst hmore
    rw [moreAnd]
    exact .bind hfirst fun first h => .bind (hmore first) fun more hm =>
      .ok (List.forall_mem_cons.mpr ⟨h, hm⟩)
  case case6 =>
    intro other hother
    rw [moreAnd.eq_def]
    split
    · next offset size rest => exact absurd rfl (hother offset size rest)
    · exact .ok (by simp)
  case case7 =>
    intro offset size rest hoperand
    rw [unary]
    exact .bind hoperand fun operand h => .ok (Filter.rereads_not h)
  case case8 =>
    intro other hother hcomparison
    rw [unary.eq_def]
    split
    · next offset size rest => exact absurd rfl (hother offset size rest)
    · exact hcomparison
  case case9 =>
    intro toks hleft hright
    rw [comparison]
    refine .bind hleft fun left h => ?_
    split
    · next m offset size rest heq =>
      split
      · exact .bind (hright left m offset size rest heq) fun right hr =>
          .ok (Filter.rereads_compare h hr)
      · exact .ok (alone_rereads h)
    · exact .ok (alone_rereads h)
  case case10 =>
    intro offset size rest hinner
    rw [operand]
    exact .bind hinner fun inner h => .bind .any fun close _ => .ok h
  case case11 =>
    intro other hother
    rw [operand.eq_def]
    split
    · next offset size rest => exact absurd rfl (hother offset size rest)
    · exact plainOperand_yields source _

/-! ## Segments -/

end Query

namespace Segment

variable {P : Type}

mutual

/-- The predicates of the filters in a segment. -/
def filters : Segment P → List P
  | .step _ => []
  | .wildcard => []
  | .slice _ => []
  | .filter p => [p]
  | .selection ss => filtersAll ss
  | .descent inner => filters inner

def filtersAll : List (Segment P) → List P
  | [] => []
  | s :: rest => filters s ++ filtersAll rest

end

/-- A segment all of whose filters can be read again. -/
def Rereads (s : Segment Query.Filter) : Prop := ∀ f ∈ s.filters, f.Rereads

theorem rereads_of_filters_eq_nil {s : Segment Query.Filter} (h : s.filters = []) : s.Rereads := by
  rw [Rereads, h]
  simp

theorem filtersAll_eq_nil {ss : List (Segment P)} (h : ∀ s ∈ ss, s.filters = []) :
    filtersAll ss = [] := by
  induction ss with
  | nil => rfl
  | cons s rest ih =>
      obtain ⟨hs, hrest⟩ := List.forall_mem_cons.mp h
      rw [filtersAll, hs, ih hrest]
      rfl

end Segment

namespace Query

theorem member_yields {P : Type} (source : String) (toks : List Token) :
    Yields (fun p => p.value.filters = []) (member (P := P) source toks) := by
  unfold member
  split
  · exact .ok rfl
  · exact .ok rfl
  · exact .ok rfl
  · exact .fail

theorem selector_yields {P : Type} (source : String) (toks : List Token) :
    Yields (fun p => p.value.filters = []) (selector (P := P) source toks) := by
  unfold selector
  split
  · exact .ok rfl
  · exact .bind .any fun p _ => .ok rfl
  · exact .ok rfl
  · exact .fail
  · exact .bind .any fun p _ => .ok rfl

theorem moreSelectors_yields {P : Type} (source : String) (toks : List Token) :
    Yields (fun p => ∀ s ∈ p.1, s.filters = []) (moreSelectors (P := P) source toks) := by
  fun_induction moreSelectors (P := P) source toks with
  | case1 offset size rest ih =>
    exact .bind (selector_yields source rest) fun first h => .bind (ih first) fun more hm =>
      .ok (List.forall_mem_cons.mpr ⟨h, hm⟩)
  | case2 other hother => exact .ok (by simp)

theorem selectors_yields {P : Type} (source : String) (toks : List Token) :
    Yields (fun p => p.value.filters = []) (selectors (P := P) source toks) := by
  unfold selectors
  refine .bind (selector_yields source toks) fun first h => ?_
  refine .bind (moreSelectors_yields source first.rest) fun more hm => .ok ?_
  dsimp only
  split
  · exact h
  · exact Segment.filtersAll_eq_nil (List.forall_mem_cons.mpr ⟨h, hm⟩)

theorem contents_yields (source : String) (toks : List Token) :
    Yields (fun p => p.value.Rereads) (contents source toks) := by
  unfold contents
  split
  · exact .ok (Segment.rereads_of_filters_eq_nil rfl)
  · refine .bind .any fun opening _ => ?_
    refine .bind ((rules_yield source).1 opening.rest) fun condition h => ?_
    refine .bind .any fun close _ => .ok fun f hf => ?_
    obtain rfl := List.mem_singleton.mp hf
    exact h
  · exact fun p hp => Segment.rereads_of_filters_eq_nil (selectors_yields source _ p hp)

theorem bracket_yields (source : String) (toks : List Token) :
    Yields (fun p => p.value.Rereads) (bracket source toks) := by
  unfold bracket
  exact .bind (contents_yields source toks) fun contents h => .bind .any fun close _ => .ok h

theorem segment_yields (source : String) (toks : List Token) :
    Yields (fun p => p.value.Rereads) (segment source toks) := by
  have hmember : ∀ rest : List Token,
      Yields (fun p => p.value.Rereads) (member (P := Filter) source rest) :=
    fun rest p hp => Segment.rereads_of_filters_eq_nil (member_yields source rest p hp)
  unfold segment
  split
  · exact .bind (hmember _) fun p h => .ok h
  · exact .bind (bracket_yields source _) fun p h => .ok h
  · exact .bind (hmember _) fun p h => .ok h
  · exact .bind (bracket_yields source _) fun p h => .ok h
  · exact .fail

theorem segments_yield (source : String) (toks : List Token) :
    Yields (fun ss => ∀ s ∈ ss, s.Rereads) (segments source toks) := by
  fun_induction segments source toks with
  | case1 => exact .ok (by simp)
  | case2 t rest ih =>
    exact .bind (segment_yields source (t :: rest)) fun first h => .bind (ih first) fun more hm =>
      .ok (List.forall_mem_cons.mpr ⟨h, hm⟩)

/-- Whatever filters a query has, their paths are what their texts are read
into. -/
theorem parse_rereads {source : String} {ss : List (Segment Filter)} (h : parse source = .ok ss) :
    ∀ s ∈ ss, s.Rereads := by
  have hstart : ∀ toks, Yields (fun ss => ∀ s ∈ ss, s.Rereads) (start source toks) := by
    intro toks
    unfold start
    split
    · exact segments_yield source _
    · refine .bind (segments_yield source _) fun more hm => .ok ?_
      exact List.forall_mem_cons.mpr ⟨Segment.rereads_of_filters_eq_nil rfl, hm⟩
    · exact segments_yield source _
    · exact .fail
  unfold parse at h
  split at h
  · cases h
  · exact Yields.bind .any (fun toks _ => hstart toks) ss h

end Query

end Conduit
