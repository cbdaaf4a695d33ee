import Conduit.Proofs.Eval.Verdicts
import Conduit.Proofs.Query.Phrase

/-!
# The order of two operands

Operands are decided from left to right, and no further than needed. Where the first
operand misses what it asks for, the whole condition misses, although the other
order might have found an operand that holds. So the order of the operands of `&&` does
not matter for what is kept, and that of `||` matters exactly where one operand holds
and the other one misses.
-/

namespace Conduit.Query

open Action (EndsAs)

variable {s : Scope} {a b f : Filter} {A B : String}

/-! ## Reading two conditions with a connective -/

/-- Two conditions in parentheses, with the mark of a connective between them. -/
def connected (m : Mark) (A B : String) : String :=
  "(" ++ A ++ ") " ++ m.text ++ " (" ++ B ++ ")"

/-- Two conditions under a connective, each read by itself, are read as its two operands. -/
theorem parse_connected {k : Nat} (hk : k < 2) (hA : parse (filterQuery A) = .ok [.filter a])
    (hB : parse (filterQuery B) = .ok [.filter b]) :
    parse (filterQuery (connected (connectiveMark k) A B)) =
      .ok [.filter (connective k [a, b])] := by
  obtain ⟨t, ht, hspells, rfl⟩ := parse_filterQuery_iff.mp hA
  obtain ⟨u, hu, hspells', rfl⟩ := parse_filterQuery_iff.mp hB
  refine parse_filterQuery_iff.mpr ⟨.chain k (.group t) [.group u], ?_, ?_, ?_⟩
  · refine .chain hk (List.cons_ne_nil _ _) ?_ ?_
    · simp only [List.forall_mem_cons]
      exact ⟨.group ht, .group hu, List.forall_mem_nil _⟩
    · simp only [List.forall_mem_cons, Phrase.rank]
      exact ⟨by omega, by omega, List.forall_mem_nil _⟩
  · have htext : (connected (connectiveMark k) A B).toList = '(' :: (A.toList ++ ')' :: ' ' ::
        ((connectiveMark k).text.toList ++ ' ' :: '(' :: (B.toList ++ ')' :: []))) := by
      simp [connected]
    have hmark : ∀ cs, mark? ((connectiveMark k).text.toList ++ ' ' :: cs) =
        some (connectiveMark k) := by
      obtain rfl | rfl : k = 0 ∨ k = 1 := by omega
      · exact fun _ => rfl
      · exact fun _ => rfl
    have hsecond := ((hspells'.paren .nil).blank (c := ' ') (by decide)).mark (hmark _)
    have hboth := hspells.paren (hsecond.blank (c := ' ') (by decide))
    rw [htext, Phrase.lexemes, Phrase.allLexemes_eq]
    simp only [List.map_cons, List.map_nil, behind_cons, Phrase.lexemes, parenthesized]
    simpa [behind] using hboth
  · rw [Phrase.filter, Phrase.meaning, Phrase.meanings_eq]
    simp only [List.map_cons, List.map_nil, Phrase.filter, Phrase.meaning]

/-! ## Verdicts on two operands -/

namespace Verdict

/-- The verdict on two operands of `||`: the second one is asked if the first one fails. -/
def or : Verdict → Verdict → Verdict
  | .fails, v => v
  | u, _ => u

/-- The verdict on two operands of `&&`: the second one is asked if the first one holds. -/
def and : Verdict → Verdict → Verdict
  | .holds, v => v
  | u, _ => u

variable {u v : Verdict}

theorem of_ok (v : Value) : of (.ok v) = if v.truthy then .holds else .fails := rfl

theorem accepts_eq_ok_iff {accepted : Bool} :
    u.accepts = .ok accepted ↔ (∀ l, u ≠ .exceeds l) ∧ accepted = decide (u = .holds) := by
  cases u <;> simp [accepts, eq_comm]

theorem or_ne_exceeds {l : Limit} (hu : u ≠ .exceeds l) (hv : v ≠ .exceeds l) :
    u.or v ≠ .exceeds l := by
  cases u <;> assumption

theorem and_ne_exceeds {l : Limit} (hu : u ≠ .exceeds l) (hv : v ≠ .exceeds l) :
    u.and v ≠ .exceeds l := by
  cases u <;> assumption

theorem and_holds_iff : u.and v = .holds ↔ u = .holds ∧ v = .holds := by
  cases u <;> simp [and]

/-- The two orders of `||` differ where one operand holds and the other one misses, and
nowhere else, as long as neither order runs past a limit. -/
theorem or_holds_comm_iff (huv : ∀ l, u.or v ≠ .exceeds l) (hvu : ∀ l, v.or u ≠ .exceeds l) :
    (u.or v = .holds ↔ v.or u = .holds) ↔
      ¬(u = .holds ∧ v = .misses) ∧ ¬(v = .holds ∧ u = .misses) := by
  cases u <;> cases v <;> simp_all [or]

end Verdict

theorem verdict_or (s : Scope) (c : Value) :
    (Filter.or [a, b]).verdict s c = (a.verdict s c).or (b.verdict s c) := by
  simp only [Filter.verdict, Filter.value, Filter.values, Action.disjoin]
  cases a.value (s.child [("@", c)]) with
  | error e => cases e <;> rfl
  | ok v =>
      show Verdict.of (if v.truthy then .ok v else _) = _
      rw [Verdict.of_ok]
      split
      · next hv => rw [Verdict.of_ok, if_pos hv]; rfl
      · cases b.value (s.child [("@", c)]) with
        | error e => rfl
        | ok w =>
            show Verdict.of (if w.truthy then .ok w else .ok w) = Verdict.of (.ok w)
            rw [ite_self]

theorem verdict_and (s : Scope) (c : Value) :
    (Filter.and [a, b]).verdict s c = (a.verdict s c).and (b.verdict s c) := by
  simp only [Filter.verdict, Filter.value, Filter.values, Action.conjoin]
  cases a.value (s.child [("@", c)]) with
  | error e => cases e <;> rfl
  | ok v =>
      show Verdict.of (if v.truthy then _ else .ok v) = _
      rw [Verdict.of_ok]
      split
      · cases b.value (s.child [("@", c)]) with
        | error e => rfl
        | ok w =>
            show Verdict.of (if w.truthy then .ok w else .ok w) = Verdict.of (.ok w)
            rw [ite_self]
      · next hv => rw [Verdict.of_ok, if_neg hv]; rfl

/-! ## What a filter keeps -/

/-- The query keeps these elements of the node, in every world. -/
def Keeps (f : Filter) (s : Scope) (node : Value) (kept : List Value) : Prop :=
  ∀ σ : Type, EndsAs Expr.stopAt
    (run (Expr.judge s) [.filter f] node : Action σ (List Value)) (.ok kept)

/-- A filter keeps the candidates of which it holds, if none of them exceeds a limit. -/
theorem keep_eq_ok_iff {vs kept : List Value} : keep (verdicts s) f vs = .ok kept ↔
    (∀ c ∈ vs, ∀ l, f.verdict s c ≠ .exceeds l) ∧
      kept = vs.filter fun c => f.verdict s c = .holds := by
  induction vs generalizing kept with
  | nil =>
      rw [keep, List.filter_nil]
      exact ⟨fun h => ⟨List.forall_mem_nil _, (Except.ok.inj h).symm⟩, fun h => by rw [h.2]; rfl⟩
  | cons c rest ih =>
      rw [keep, List.forall_mem_cons, List.filter_cons]
      constructor
      · intro h
        obtain ⟨accepted, haccepts, h⟩ := ok_of_bind h
        obtain ⟨more, hmore, h⟩ := ok_of_bind h
        obtain ⟨hrest, rfl⟩ := ih.mp hmore
        obtain ⟨hc, rfl⟩ := Verdict.accepts_eq_ok_iff.mp haccepts
        exact ⟨⟨hc, hrest⟩, (Except.ok.inj h).symm⟩
      · rintro ⟨⟨hc, hrest⟩, rfl⟩
        have haccepts : (verdicts s).accepts f c = .ok (f.verdict s c = .holds) :=
          Verdict.accepts_eq_ok_iff.mpr ⟨hc, rfl⟩
        rw [haccepts, ih.mpr ⟨hrest, rfl⟩]
        rfl

theorem keeps_iff_keep {node : Value} {kept : List Value} :
    Keeps f s node kept ↔ keep (verdicts s) f node.children = .ok kept := by
  have hends : ∀ σ, EndsAs Expr.stopAt (run (Expr.judge s) [.filter f] node : Action σ _)
      (keep (verdicts s) f node.children) := by
    intro σ
    have hrun := Expr.run_endsAs (σ := σ) s [.filter f] node
    rwa [run_single (verdicts s), select] at hrun
  constructor
  · -- One world is enough: there the query has one outcome.
    intro h
    obtain ⟨_, hkept⟩ := h Unit { outside := () }
    obtain ⟨_, hkeep⟩ := hends Unit { outside := () }
    have heq := (Prod.mk.inj (hkept.symm.trans hkeep)).1
    cases hr : keep (verdicts s) f node.children with
    | ok found =>
        rw [hr] at heq
        cases heq
        rfl
    | error l =>
        rw [hr] at heq
        cases heq
  · intro h σ
    exact h ▸ hends σ

theorem keeps_iff {node : Value} {kept : List Value} : Keeps f s node kept ↔
    (∀ c ∈ node.children, ∀ l, f.verdict s c ≠ .exceeds l) ∧
      kept = node.children.filter fun c => f.verdict s c = .holds :=
  keeps_iff_keep.trans keep_eq_ok_iff

theorem filter_eq_filter_iff {α : Type} {p q : α → Bool} {xs : List α} :
    xs.filter p = xs.filter q ↔ ∀ x ∈ xs, (p x = true ↔ q x = true) := by
  constructor
  · intro h x hx
    have hmem : x ∈ xs.filter p ↔ x ∈ xs.filter q := by rw [h]
    simpa only [List.mem_filter, hx, true_and] using hmem
  · exact fun h => List.filter_congr fun x hx => Bool.eq_iff_iff.mpr (h x hx)

theorem exists_keeps {node : Value} (h : ∀ c ∈ node.children, ∀ l, f.verdict s c ≠ .exceeds l) :
    ∃ kept, Keeps f s node kept :=
  ⟨_, keeps_iff.mpr ⟨h, rfl⟩⟩

/-! ## A comparison of a field -/

/-- The path of a field of the candidate. -/
def fieldPath : Phrase :=
  .plain [.mark .current, .mark .point, .name "x"]
    (.path { text := "@.x", head := "@", rest := [.field "x"] }) true

def one : Phrase := .plain [.number (.int 1)] (.literal (.int 1)) false

def always : Phrase := .plain [.name "true"] (.literal (.bool true)) false

/-- The candidate has a field of a given value. -/
def fieldIsOne : Phrase := .compare .eq fieldPath one

theorem fieldPath_isGrammatical : fieldPath.IsGrammatical := by
  have hpath : filterPath [.field "@", .field "x"] =
      .ok { text := "@.x", head := "@", rest := [.field "x"] } := by decide +kernel
  have hsteps : pathSteps "" [⟨.mark .point, 0, 0⟩, ⟨.name "x", 0, 0⟩] =
      .ok ([.field "x"], ⟨[], by decide⟩) := by
    rw [pathSteps]
    show (pathSteps "" [] >>= _) = _
    rw [pathSteps]
    rfl
  refine .plain (readsPlain_of_plainOperand ?_)
  show ((relativePath "" true [⟨.mark .point, 0, 0⟩, ⟨.name "x", 0, 0⟩] >>= _).map _) = _
  rw [relativePath, hsteps]
  show (((filterPath [.field "@", .field "x"] >>= _) >>= _).map _) = _
  rw [hpath]
  rfl

theorem one_isGrammatical : one.IsGrammatical := .plain (readsPlain_of_plainOperand rfl)

theorem always_isGrammatical : always.IsGrammatical := .plain (readsPlain_of_plainOperand rfl)

theorem fieldIsOne_isGrammatical : fieldIsOne.IsGrammatical :=
  .compare fieldPath_isGrammatical one_isGrammatical rfl rfl

theorem parse_fieldIsOne : parse (filterQuery "@.x == 1") = .ok [.filter fieldIsOne.filter] :=
  parse_filterQuery_of_scan fieldIsOne_isGrammatical (by decide +kernel)

theorem parse_always : parse (filterQuery "true") = .ok [.filter always.filter] :=
  parse_filterQuery_of_scan always_isGrammatical (by decide +kernel)

/-- Two elements with the field. -/
def oneAndTwo : Value := .arr [.obj [("x", .int 1)], .obj [("x", .int 2)]]

/-! ## The two orders -/

/-- Under `&&` the order of two conditions does not matter for the elements that are kept,
and under `||` it matters only where one of them holds of an element on which the
other one misses what it asks for. -/
theorem parse_connected_comm (hA : parse (filterQuery A) = .ok [.filter a])
    (hB : parse (filterQuery B) = .ok [.filter b]) :
    ∃ orAB orBA andAB andBA : Filter,
      parse (filterQuery (connected .or A B)) = .ok [.filter orAB] ∧
      parse (filterQuery (connected .or B A)) = .ok [.filter orBA] ∧
      parse (filterQuery (connected .and A B)) = .ok [.filter andAB] ∧
      parse (filterQuery (connected .and B A)) = .ok [.filter andBA] ∧
      ∀ (s : Scope) (node : Value),
        ((∀ c ∈ node.children, ∀ l, a.verdict s c ≠ .exceeds l ∧ b.verdict s c ≠ .exceeds l) →
          ∀ f ∈ [orAB, orBA, andAB, andBA], ∃ kept, Keeps f s node kept) ∧
        ∀ kept kept' : List Value,
          (Keeps andAB s node kept → Keeps andBA s node kept' → kept = kept') ∧
          (Keeps orAB s node kept → Keeps orBA s node kept' → (kept = kept' ↔
            ∀ c ∈ node.children, ¬(a.verdict s c = .holds ∧ b.verdict s c = .misses) ∧
              ¬(b.verdict s c = .holds ∧ a.verdict s c = .misses))) := by
  refine ⟨.or [a, b], .or [b, a], .and [a, b], .and [b, a],
    parse_connected (k := 0) (by decide) hA hB, parse_connected (k := 0) (by decide) hB hA,
    parse_connected (k := 1) (by decide) hA hB, parse_connected (k := 1) (by decide) hB hA,
    fun s node => ⟨fun h f hf => ?_, fun kept kept' => ⟨fun hAB hBA => ?_, fun hAB hBA => ?_⟩⟩⟩
  · refine exists_keeps fun c hc l => ?_
    obtain ⟨ha, hb⟩ : a.verdict s c ≠ .exceeds l ∧ b.verdict s c ≠ .exceeds l := h c hc l
    simp only [List.mem_cons, List.not_mem_nil, or_false] at hf
    rcases hf with rfl | rfl | rfl | rfl
    · exact verdict_or s c ▸ Verdict.or_ne_exceeds ha hb
    · exact verdict_or s c ▸ Verdict.or_ne_exceeds hb ha
    · exact verdict_and s c ▸ Verdict.and_ne_exceeds ha hb
    · exact verdict_and s c ▸ Verdict.and_ne_exceeds hb ha
  · obtain ⟨-, rfl⟩ := keeps_iff.mp hAB
    obtain ⟨-, rfl⟩ := keeps_iff.mp hBA
    refine filter_eq_filter_iff.mpr fun c _ => ?_
    rw [decide_eq_true_eq, decide_eq_true_eq, verdict_and, verdict_and, Verdict.and_holds_iff,
      Verdict.and_holds_iff, and_comm]
  · obtain ⟨hbelow, rfl⟩ := keeps_iff.mp hAB
    obtain ⟨hbelow', rfl⟩ := keeps_iff.mp hBA
    rw [filter_eq_filter_iff]
    refine forall₂_congr fun c hc => ?_
    have hc' := hbelow' c hc
    have hc := hbelow c hc
    rw [verdict_or] at hc hc'
    rw [decide_eq_true_eq, decide_eq_true_eq, verdict_or, verdict_or]
    exact Verdict.or_holds_comm_iff hc hc'

theorem parse_connected_comm_oneAndTwo :
    parse (filterQuery "@.x == 1") = .ok [.filter fieldIsOne.filter] ∧
    parse (filterQuery "true") = .ok [.filter always.filter] ∧
    ∃ orAB orBA andAB andBA : Filter,
      parse (filterQuery (connected .or "@.x == 1" "true")) = .ok [.filter orAB] ∧
      parse (filterQuery (connected .or "true" "@.x == 1")) = .ok [.filter orBA] ∧
      parse (filterQuery (connected .and "@.x == 1" "true")) = .ok [.filter andAB] ∧
      parse (filterQuery (connected .and "true" "@.x == 1")) = .ok [.filter andBA] ∧
      (∃ kept, Keeps orAB (.ofFields []) oneAndTwo kept ∧
        Keeps orBA (.ofFields []) oneAndTwo kept) ∧
      ∃ kept, Keeps andAB (.ofFields []) oneAndTwo kept ∧
        Keeps andBA (.ofFields []) oneAndTwo kept := by
  obtain ⟨orAB, orBA, andAB, andBA, hor, hor', hand, hand', hkeep⟩ :=
    parse_connected_comm parse_fieldIsOne parse_always
  obtain ⟨hreturn, hsame⟩ := hkeep (.ofFields []) oneAndTwo
  have hbelow : ∀ c ∈ oneAndTwo.children, ∀ l,
      fieldIsOne.filter.verdict (.ofFields []) c ≠ .exceeds l ∧
        always.filter.verdict (.ofFields []) c ≠ .exceeds l := by
    have hdecided : ∀ c ∈ oneAndTwo.children,
        fieldIsOne.filter.verdict (.ofFields []) c = .holds ∨
          fieldIsOne.filter.verdict (.ofFields []) c = .fails := by decide +kernel
    refine fun c hc l => ⟨fun hexceeds => ?_, nofun⟩
    rcases hdecided c hc with h | h <;> rw [hexceeds] at h <;> cases h
  refine ⟨parse_fieldIsOne, parse_always, orAB, orBA, andAB, andBA, hor, hor', hand, hand', ?_, ?_⟩
  · obtain ⟨kept, hkept⟩ := hreturn hbelow orAB (by simp)
    obtain ⟨kept', hkept'⟩ := hreturn hbelow orBA (by simp)
    obtain rfl := ((hsame kept kept').2 hkept hkept').mpr (by decide +kernel)
    exact ⟨kept, hkept, hkept'⟩
  · obtain ⟨kept, hkept⟩ := hreturn hbelow andAB (by simp)
    obtain ⟨kept', hkept'⟩ := hreturn hbelow andBA (by simp)
    obtain rfl := (hsame kept kept').1 hkept hkept'
    exact ⟨kept, hkept, hkept'⟩

/-- An element without the field is kept in one order, and not in the other one. -/
theorem connected_or_missing_field :
    ∃ a b orAB orBA : Filter,
      parse (filterQuery "@.x == 1") = .ok [.filter a] ∧
      parse (filterQuery "true") = .ok [.filter b] ∧
      parse (filterQuery (connected .or "@.x == 1" "true")) = .ok [.filter orAB] ∧
      parse (filterQuery (connected .or "true" "@.x == 1")) = .ok [.filter orBA] ∧
      Keeps orAB (.ofFields []) (.arr [.obj []]) [] ∧
      Keeps orBA (.ofFields []) (.arr [.obj []]) [.obj []] := by
  refine ⟨_, _, _, _, parse_fieldIsOne, parse_always,
    parse_connected (k := 0) (by decide) parse_fieldIsOne parse_always,
    parse_connected (k := 0) (by decide) parse_always parse_fieldIsOne, ?_, ?_⟩
  · exact keeps_iff_keep.mpr rfl
  · exact keeps_iff_keep.mpr rfl

end Conduit.Query
