import Conduit.Proofs.Query.Connective

/-!
# Redundant parentheses

Parentheses around a part of a condition do not change what the condition keeps: what is
read between them is the same condition, and a connective of several operands comes
to the same as one with some of them in parentheses. The exception is a path that is
compared, since in parentheses a path no longer stands for its value.
-/

namespace Conduit

/-! ## Connectives of connectives -/

namespace Action

variable {m : Type → Type} [Monad m] [LawfulMonad m] {last : Value}

theorem disjoin_append (hlast : last.truthy = false) (xs ys : List (m Value)) :
    disjoin last (xs ++ ys) = disjoin last xs >>= fun v =>
      if v.truthy then pure v else disjoin v ys := by
  induction xs generalizing last with
  | nil => rw [List.nil_append, disjoin, pure_bind, if_neg (by simp [hlast])]
  | cons x rest ih =>
      rw [List.cons_append, disjoin, disjoin, bind_assoc]
      refine bind_congr fun v => ?_
      split
      · next hv => rw [pure_bind, if_pos hv]
      · next hv => exact ih (by simpa using hv)

theorem conjoin_append (hlast : last.truthy = true) (xs ys : List (m Value)) :
    conjoin last (xs ++ ys) = conjoin last xs >>= fun v =>
      if v.truthy then conjoin v ys else pure v := by
  induction xs generalizing last with
  | nil => rw [List.nil_append, conjoin, pure_bind, if_pos hlast]
  | cons x rest ih =>
      rw [List.cons_append, conjoin, conjoin, bind_assoc]
      refine bind_congr fun v => ?_
      split
      · next hv => exact ih hv
      · next hv => rw [pure_bind, if_neg hv]

end Action

namespace Query

open Expr (evalFilter evalFilters)

section Connect

variable {m : Type → Type} [Monad m]

/-- What operands come to under the connective of rank `k`. -/
def connect : Nat → List (m Value) → m Value
  | 0 => Action.disjoin (.bool false)
  | _ + 1 => Action.conjoin (.bool true)

variable [LawfulMonad m]

theorem connect_singleton (k : Nat) (act : m Value) : connect k [act] = act := by
  cases k <;> simp [connect, Action.disjoin, Action.conjoin]

/-- Neighbouring operands under a connective of their own come to the same. -/
theorem connect_flatten (k : Nat) (xs zs : List (m Value)) {ys : List (m Value)} (hys : ys ≠ []) :
    connect k (xs ++ connect k ys :: zs) = connect k (xs ++ (ys ++ zs)) := by
  obtain ⟨y, ys, rfl⟩ := List.exists_cons_of_ne_nil hys
  cases k with
  | zero =>
      rw [connect, Action.disjoin_append rfl, Action.disjoin_append rfl]
      refine bind_congr fun v => ?_
      split
      · rfl
      · next hv => rw [Action.disjoin_append (by simpa using hv)]; rfl
  | succ k =>
      rw [connect, Action.conjoin_append rfl, Action.conjoin_append rfl]
      refine bind_congr fun v => ?_
      split
      · next hv => rw [Action.conjoin_append hv]; rfl
      · rfl

end Connect

variable {σ : Type}

theorem evalFilters_eq_map (fs : List Filter) (s : Scope) :
    (evalFilters fs s : List (Action σ Value)) = fs.map (evalFilter · s) := by
  induction fs with
  | nil => rfl
  | cons f rest ih => rw [evalFilters, ih]; rfl

theorem evalFilter_connective (k : Nat) (fs : List Filter) (s : Scope) :
    (evalFilter (connective k fs) s : Action σ Value) = connect k (fs.map (evalFilter · s)) := by
  rw [← evalFilters_eq_map]
  cases k <;> rfl

theorem evalFilter_join (k : Nat) (first : Filter) (more : List Filter) (s : Scope) :
    (evalFilter (join (connective k) first more) s : Action σ Value) =
      connect k ((first :: more).map (evalFilter · s)) := by
  cases more with
  | nil => exact (connect_singleton k _).symm
  | cons f rest => exact evalFilter_connective k (first :: f :: rest) s

/-! ## Parts of a phrase -/

/-- Operands with the mark of a connective behind each. -/
def ahead (m : Mark) (operands : List (List Lexeme)) : List Lexeme :=
  operands.flatMap (· ++ [.mark m])

/-- Operands between marks, seen from one of them. -/
theorem append_behind (m : Mark) {first y : List Lexeme} {more xs zs : List (List Lexeme)}
    (h : first :: more = xs ++ y :: zs) :
    first ++ behind m more = ahead m xs ++ (y ++ behind m zs) := by
  induction xs generalizing first more with
  | nil =>
      obtain ⟨rfl, rfl⟩ := List.cons.inj h
      rfl
  | cons x rest ih =>
      obtain ⟨rfl, hmore⟩ := List.cons.inj h
      obtain ⟨next, later, rfl⟩ := List.exists_cons_of_ne_nil (l := more) (by rw [hmore]; simp)
      rw [behind_cons, ih hmore]
      simp [ahead]

namespace Phrase

/-- A part of a phrase that can be put in parentheses, with the lexemes before it, its own
and those behind it: the whole phrase, neighbouring operands of a connective, and the
parts of an operand. It is `compared` if it is a path that is compared. -/
inductive Part : Phrase → (compared : Bool) → (before inner after : List Lexeme) → Prop where
  | whole (p : Phrase) : Part p false [] p.lexemes []
  | neighbours {k : Nat} {first y : Phrase} {more xs ys zs : List Phrase}
      (h : first :: more = xs ++ y :: (ys ++ zs)) :
    Part (chain k first more) false (ahead (connectiveMark k) (xs.map lexemes))
      (y.lexemes ++ behind (connectiveMark k) (ys.map lexemes))
      (behind (connectiveMark k) (zs.map lexemes))
  | operand {k : Nat} {first p : Phrase} {more xs zs : List Phrase} {compared : Bool}
      {before inner after : List Lexeme} (h : first :: more = xs ++ p :: zs)
      (hp : Part p compared before inner after) :
    Part (chain k first more) compared (ahead (connectiveMark k) (xs.map lexemes) ++ before) inner
      (after ++ behind (connectiveMark k) (zs.map lexemes))
  | group {p : Phrase} {compared : Bool} {before inner after : List Lexeme}
      (hp : Part p compared before inner after) :
    Part (group p) compared (.mark .openParen :: before) inner (after ++ [.mark .closeParen])
  | not {p : Phrase} {compared : Bool} {before inner after : List Lexeme}
      (hp : Part p compared before inner after) :
    Part (not p) compared (.mark .not :: before) inner after
  | left {op : Comparison} {p right : Phrase} {compared : Bool}
      {before inner after : List Lexeme} (hp : Part p compared before inner after) :
    Part (compare op p right) (compared || p.isBare) before inner
      (after ++ .mark (comparisonMark op) :: right.lexemes)
  | right {op : Comparison} {left p : Phrase} {compared : Bool}
      {before inner after : List Lexeme} (hp : Part p compared before inner after) :
    Part (compare op left p) (compared || p.isBare)
      (left.lexemes ++ .mark (comparisonMark op) :: before) inner after

variable {p q : Phrase} {compared : Bool} {before inner after : List Lexeme}

theorem lexemes_chain {k : Nat} {first y : Phrase} {more xs zs : List Phrase}
    (h : first :: more = xs ++ y :: zs) : (chain k first more).lexemes =
      ahead (connectiveMark k) (xs.map lexemes) ++
        (y.lexemes ++ behind (connectiveMark k) (zs.map lexemes)) := by
  rw [lexemes, allLexemes_eq]
  refine append_behind _ ?_
  rw [← List.map_cons, h, List.map_append, List.map_cons]

theorem Part.lexemes_eq (h : p.Part compared before inner after) :
    p.lexemes = before ++ (inner ++ after) := by
  induction h with
  | whole p => simp
  | neighbours h =>
      rw [lexemes_chain h, List.map_append, behind, behind, behind, List.flatMap_append]
      simp only [List.append_assoc]
  | operand h _ ih =>
      rw [lexemes_chain h, ih]
      simp only [List.append_assoc]
  | group _ ih =>
      rw [lexemes, parenthesized, ih]
      simp
  | not _ ih =>
      rw [lexemes, ih]
      rfl
  | left _ ih =>
      rw [lexemes, ih]
      simp
  | right _ ih =>
      rw [lexemes, ih]
      simp

theorem IsGrammatical.rank_le (h : p.IsGrammatical) : p.rank ≤ 3 := by
  cases h with
  | chain hk => exact Nat.le_of_lt (Nat.lt_of_lt_of_le hk (by decide))
  | _ => simp only [rank, Nat.le_refl, Nat.reduceLeDiff]

theorem IsGrammatical.operands {k : Nat} {first : Phrase} {more : List Phrase}
    (h : (Phrase.chain k first more).IsGrammatical) :
    k < 2 ∧ ∀ p ∈ first :: more, p.IsGrammatical ∧ k < p.rank := by
  cases h with
  | chain hk _ hall hrank => exact ⟨hk, fun p hp => ⟨hall p hp, hrank p hp⟩⟩

/-! ## A part in parentheses -/

/-- The second phrase comes to what the first one does. -/
def SameValue (p q : Phrase) : Prop :=
  ∀ (σ : Type) (s : Scope), (evalFilter q.filter s : Action σ Value) = evalFilter p.filter s

/-- As a side of a comparison too, if neither phrase is a bare path. -/
theorem SameValue.side (h : SameValue p q) (hp : p.isBare = false) (hq : q.isBare = false)
    (s : Scope) :
    (evalFilter (q.meaning true) s : Action σ Value) = evalFilter (p.meaning true) s := by
  rw [meaning_eq_filter true hp, meaning_eq_filter true hq]
  exact h σ s

theorem evalFilter_compare (op : Comparison) (p q : Phrase) (s : Scope) :
    (evalFilter (compare op p q).filter s : Action σ Value) = (do
      let v ← evalFilter (p.meaning true) s
      let w ← evalFilter (q.meaning true) s
      .perform (.compare op v w)) := by
  rw [filter, meaning, evalFilter]

/-- What stands where an operand of a chain did, or several. -/
theorem exists_chain {k : Nat} {q : Phrase} {xs zs : List Phrase} (hk : k < 2)
    (h : ∀ p ∈ xs ++ q :: zs, p.IsGrammatical ∧ k < p.rank) (hbare : q.isBare = false) :
    ∃ t : Phrase, t.IsGrammatical ∧ k ≤ t.rank ∧ t.isBare = false ∧
      t.lexemes = ahead (connectiveMark k) (xs.map lexemes) ++
        (q.lexemes ++ behind (connectiveMark k) (zs.map lexemes)) ∧
      ∀ (σ : Type) (s : Scope), (evalFilter t.filter s : Action σ Value) =
        connect k ((xs ++ q :: zs).map fun p => evalFilter p.filter s) := by
  obtain ⟨first, more, heq⟩ := List.exists_cons_of_ne_nil (l := xs ++ q :: zs) (by simp)
  refine ⟨joined k first more, ?_, ?_, ?_, ?_, fun σ s => ?_⟩
  · exact .joined hk (heq ▸ h)
  · exact le_rank_joined (h first (by rw [heq]; exact List.mem_cons_self)).2
  · unfold joined
    split
    · next hmore =>
        rw [List.isEmpty_iff.mp hmore] at heq
        obtain rfl : q = first := by
          have hmem : q ∈ [first] := by rw [← heq]; simp
          exact List.mem_singleton.mp hmem
        exact hbare
    · rfl
  · rw [lexemes_joined]
    refine append_behind _ ?_
    rw [← List.map_cons, ← heq, List.map_append, List.map_cons]
  · rw [filter_joined, evalFilter_join, ← List.map_cons, ← heq, List.map_map]
    rfl

theorem evalFilter_chain (k : Nat) (first : Phrase) (more : List Phrase) (s : Scope) :
    (evalFilter (chain k first more).filter s : Action σ Value) =
      connect k ((first :: more).map fun p => evalFilter p.filter s) := by
  rw [filter, meaning, meanings_eq, evalFilter_connective, ← filter, ← List.map_cons (f := filter),
    List.map_map]
  rfl

/-- A part of a phrase in parentheses leaves a phrase, which comes to the same unless the
part is a path that is compared. -/
theorem Part.exists_parenthesized (h : p.Part compared before inner after)
    (hp : p.IsGrammatical) : ∃ q : Phrase, q.IsGrammatical ∧ p.rank ≤ q.rank ∧
      q.isBare = false ∧ q.lexemes = before ++ (parenthesized inner ++ after) ∧
      (compared = false → SameValue p q) := by
  -- On the way down to the part: each step puts the phrase around it together again.
  induction h with
  | whole p => exact ⟨.group p, .group hp, hp.rank_le, rfl, by simp [lexemes], fun _ _ _ => rfl⟩
  | @neighbours k first y more xs ys zs h =>
      obtain ⟨hk, hparts⟩ := hp.operands
      rw [h, ← List.cons_append] at hparts
      obtain ⟨hbefore, hhere⟩ := List.forall_mem_append.mp hparts
      obtain ⟨hinner, hafter⟩ := List.forall_mem_append.mp hhere
      have hgroup : (Phrase.group (joined k y ys)).IsGrammatical ∧ k < 3 :=
        ⟨.group (.joined hk hinner), Nat.lt_succ_of_lt hk⟩
      obtain ⟨q, hq, hqrank, hbare, hlexemes, hvalue⟩ := exists_chain hk
        (List.forall_mem_append.mpr ⟨hbefore, List.forall_mem_cons.mpr ⟨hgroup, hafter⟩⟩) rfl
      refine ⟨q, hq, hqrank, hbare, ?_, fun _ σ s => ?_⟩
      · rw [hlexemes, lexemes, lexemes_joined]
      · have hjoined : (evalFilter (Phrase.group (joined k y ys)).filter s : Action σ Value) =
            connect k ((y :: ys).map fun p => evalFilter p.filter s) := by
          show (evalFilter (joined k y ys).filter s : Action σ Value) = _
          rw [filter_joined, evalFilter_join, ← List.map_cons, List.map_map]
          rfl
        -- The operands in parentheses are one operand now, under the same connective.
        rw [hvalue, evalFilter_chain, h, List.map_append, List.map_cons, hjoined,
          connect_flatten k _ _ (by simp), ← List.map_append, ← List.map_append]
        rfl
  | @operand k first p more xs zs compared before inner after h hpart ih =>
      obtain ⟨hk, hparts⟩ := hp.operands
      rw [h] at hparts
      obtain ⟨hbefore, hhere⟩ := List.forall_mem_append.mp hparts
      obtain ⟨⟨hp, hprank⟩, hafter⟩ := List.forall_mem_cons.mp hhere
      obtain ⟨u, hu, hurank, hubare, hulexemes, husame⟩ := ih hp
      obtain ⟨q, hq, hqrank, hbare, hlexemes, hvalue⟩ := exists_chain hk
        (List.forall_mem_append.mpr ⟨hbefore, List.forall_mem_cons.mpr
          ⟨⟨hu, Nat.lt_of_lt_of_le hprank hurank⟩, hafter⟩⟩) hubare
      refine ⟨q, hq, hqrank, hbare, ?_, fun hcompared σ s => ?_⟩
      · rw [hlexemes, hulexemes]
        simp only [List.append_assoc]
      · rw [hvalue, evalFilter_chain, h, List.map_append, List.map_append, List.map_cons,
          List.map_cons, husame hcompared]
  | group _ ih =>
      cases hp with
      | group hp =>
      obtain ⟨u, hu, -, -, hlexemes, hsame⟩ := ih hp
      refine ⟨.group u, .group hu, Nat.le_refl 3, rfl, ?_, hsame⟩
      rw [lexemes, parenthesized, hlexemes]
      simp
  | not _ ih =>
      cases hp with
      | not hp hrank =>
      obtain ⟨u, hu, hurank, -, hlexemes, hsame⟩ := ih hp
      refine ⟨.not u, .not hu (Nat.le_trans hrank hurank), Nat.le_refl 2, rfl, ?_, ?_⟩
      · rw [lexemes, hlexemes]
        rfl
      · intro hcompared σ s
        show (evalFilter (.not u.filter) s : Action σ Value) = evalFilter (.not _) s
        rw [evalFilter, hsame hcompared]
        rfl
  | @left op p right compared before inner after _ ih =>
      cases hp with
      | compare hp hright hrank hrank' =>
      obtain ⟨u, hu, hurank, hbare, hlexemes, hsame⟩ := ih hp
      refine ⟨.compare op u right, .compare hu hright ?_ hrank', Nat.le_refl 2, rfl, ?_, ?_⟩
      · exact Nat.le_antisymm hu.rank_le (hrank ▸ hurank)
      · rw [lexemes, hlexemes]
        simp
      · intro hcompared σ s
        obtain ⟨hcompared, hside⟩ := Bool.or_eq_false_iff.mp hcompared
        rw [evalFilter_compare, evalFilter_compare, (hsame hcompared).side hside hbare]
  | @right op left p compared before inner after _ ih =>
      cases hp with
      | compare hleft hp hrank hrank' =>
      obtain ⟨u, hu, hurank, hbare, hlexemes, hsame⟩ := ih hp
      refine ⟨.compare op left u, .compare hleft hu hrank ?_, Nat.le_refl 2, rfl, ?_, ?_⟩
      · exact Nat.le_antisymm hu.rank_le (hrank' ▸ hurank)
      · rw [lexemes, hlexemes]
        simp
      · intro hcompared σ s
        obtain ⟨hcompared, hside⟩ := Bool.or_eq_false_iff.mp hcompared
        rw [evalFilter_compare, evalFilter_compare, (hsame hcompared).side hside hbare]

/-- Some text of a part, with the text before it and the one behind it. -/
def PartText (t : Phrase) (compared : Bool) (pre sub post : String) : Prop :=
  ∃ before inner after, t.Part compared before inner after ∧
    Spells pre.toList before ∧ Spells sub.toList inner ∧ Spells post.toList after

end Phrase

/-! ## A part of a condition in parentheses -/

variable {A : String} {f g : Filter}

theorem run_filter_congr (h : ∀ s, (evalFilter g s : Action σ Value) = evalFilter f s) (s : Scope)
    (node : Value) : (run (Expr.judge s) [.filter g] node : Action σ (List Value)) =
      run (Expr.judge s) [.filter f] node := by
  have haccepts : ∀ c, ((Expr.judge s).accepts g c : Action σ Bool) =
      (Expr.judge s).accepts f c := by
    intro c
    simp only [Expr.judge, h]
  rw [run_single, run_single, select, select]
  induction node.children with
  | nil => rfl
  | cons c rest ih => rw [keep, keep, haccepts, ih]

theorem Spells.parenthesized {pre sub post : String} {before inner after : List Lexeme}
    (hpre : Spells pre.toList before) (hsub : Spells sub.toList inner)
    (hpost : Spells post.toList after) :
    Spells (pre ++ "(" ++ sub ++ ")" ++ post).toList
      (before ++ (Query.parenthesized inner ++ after)) := by
  have hinner := hpre.append (fun c hc => .inl (by cases hc; rfl)) (hsub.paren hpost)
  simpa [Query.parenthesized] using hinner

/-- Any part of a condition can be put in parentheses where it stands in the text. The
condition is still read then, and unless the part is a path that is compared, it keeps the
same elements of every node in every context, and does nothing else on the way. -/
theorem parse_parenthesized (h : parse (filterQuery A) = .ok [.filter f]) :
    (∃ t : Phrase, t.IsGrammatical ∧ Spells A.toList t.lexemes) ∧
    ∀ t : Phrase, t.IsGrammatical → Spells A.toList t.lexemes →
      (∀ compared before inner after, t.Part compared before inner after →
        ∃ pre sub post : String, A = pre ++ sub ++ post ∧ Spells pre.toList before ∧
          Spells sub.toList inner ∧ Spells post.toList after) ∧
      ∀ (compared : Bool) (pre sub post : String), A = pre ++ sub ++ post →
        t.PartText compared pre sub post →
        ∃ g, parse (filterQuery (pre ++ "(" ++ sub ++ ")" ++ post)) = .ok [.filter g] ∧
          (compared = false → ∀ (σ : Type) (s : Scope) (node : Value),
            (run (Expr.judge s) [.filter g] node : Action σ (List Value)) =
              run (Expr.judge s) [.filter f] node) := by
  obtain ⟨t, ht, hspells, -⟩ := parse_filterQuery_iff.mp h
  refine ⟨⟨t, ht, hspells⟩, fun t ht hspells => ⟨fun _ before inner after hpart => ?_,
    fun _ pre sub post _ hpart => ?_⟩⟩
  · rw [hpart.lexemes_eq] at hspells
    obtain ⟨pre, _, hpre, hbefore, hbehind⟩ := hspells.cut
    obtain ⟨sub, post, rfl, hinner, hafter⟩ := hbehind.cut
    refine ⟨.ofList pre, .ofList sub, .ofList post, ?_, ?_, ?_, ?_⟩
    · rw [← String.toList_inj, hpre]
      simp
    all_goals rwa [String.toList_ofList]
  · obtain ⟨before, inner, after, hpart, hpre, hsub, hpost⟩ := hpart
    obtain ⟨q, hq, -, -, hlexemes, hsame⟩ := hpart.exists_parenthesized ht
    have hread := parse_filterQuery_iff.mpr ⟨t, ht, hspells, rfl⟩
    rw [h] at hread
    cases hread
    refine ⟨q.filter, parse_filterQuery_iff.mpr ⟨q, hq, ?_, rfl⟩, fun hcompared σ => ?_⟩
    · rw [hlexemes]
      exact hpre.parenthesized hsub hpost
    · exact run_filter_congr (hsame hcompared σ)

/-! ### A comparison of a path -/

theorem parse_parenthesized_one :
    parse (filterQuery "@.x == 1") = .ok [.filter fieldIsOne.filter] ∧
      ∃ g, parse (filterQuery "@.x == (1)") = .ok [.filter g] ∧
        ∀ (σ : Type) (s : Scope) (node : Value),
          (run (Expr.judge s) [.filter g] node : Action σ (List Value)) =
            run (Expr.judge s) [.filter fieldIsOne.filter] node := by
  have hpart : fieldIsOne.PartText false "@.x == " "1" "" :=
    ⟨_, _, _, .right (.whole one), spells_of_scan (by decide +kernel),
      spells_of_scan (by decide +kernel), .nil⟩
  obtain ⟨g, hg, hsame⟩ := ((parse_parenthesized parse_fieldIsOne).2 fieldIsOne
    fieldIsOne_isGrammatical (spells_of_scan (by decide +kernel))).2 false _ _ _
    (by decide +kernel) hpart
  exact ⟨parse_fieldIsOne, g, hg, hsame rfl⟩

/-- A path that is compared asks for a value, and in parentheses whether there is one. -/
theorem parenthesized_path_compared :
    ∃ f g, parse (filterQuery "@.x == 1") = .ok [.filter f] ∧
      parse (filterQuery "(@.x) == 1") = .ok [.filter g] ∧
      Keeps f (.ofFields []) (.arr [.obj [("x", .int 1)]]) [.obj [("x", .int 1)]] ∧
      Keeps g (.ofFields []) (.arr [.obj [("x", .int 1)]]) [] := by
  have hgrammatical : (Phrase.compare .eq (.group fieldPath) one).IsGrammatical :=
    .compare (.group fieldPath_isGrammatical) one_isGrammatical rfl rfl
  have hholds : fieldIsOne.filter.verdict (.ofFields []) (.obj [("x", .int 1)]) = .holds := by
    decide +kernel
  have hfails : (Phrase.compare .eq (.group fieldPath) one).filter.verdict (.ofFields [])
      (.obj [("x", .int 1)]) = .fails := by decide +kernel
  refine ⟨_, _, parse_fieldIsOne, parse_filterQuery_of_scan hgrammatical (by decide +kernel),
    keeps_iff_keep.mpr ?_, keeps_iff_keep.mpr ?_⟩
  · show ((fieldIsOne.filter.verdict _ _).accepts >>= _) = _
    rw [hholds]
    rfl
  · show ((Filter.verdict _ _ _).accepts >>= _) = _
    rw [hfails]
    rfl

end Query

end Conduit
