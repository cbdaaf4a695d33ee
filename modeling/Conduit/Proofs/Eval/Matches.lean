import Conduit.Proofs.Eval.Verdicts

/-!
# What queries find

A query comes to parts of the value that it is run on. A path that leads nowhere and
values that have no order only make a filter miss, so there is nothing that could
stop a query but a limit of numbers.
-/

namespace Conduit

open Action (EndsAs)

variable {σ : Type}

/-! ## Matches are parts -/

/-- A value at some location inside another one. -/
def Value.IsPartOf (v root : Value) : Prop := ∃ l : Location, root.at? l = some v

namespace Value.IsPartOf

variable {u v root : Value}

theorem refl (v : Value) : v.IsPartOf v := ⟨[], rfl⟩

theorem trans (h : u.IsPartOf v) (h' : v.IsPartOf root) : u.IsPartOf root := by
  obtain ⟨inner, hinner⟩ := h
  obtain ⟨l, hl⟩ := h'
  exact ⟨l ++ inner, by rw [at?_append, hl, Option.bind_some, hinner]⟩

theorem child (h : u ∈ v.children) : u.IsPartOf v := by
  obtain ⟨i, hi⟩ := List.mem_iff_getElem?.mp h
  exact ⟨[i], by rw [at?_child, hi]⟩

theorem descendant (h : u ∈ v.descendants) : u.IsPartOf v := by
  rw [← filterMap_locations] at h
  obtain ⟨l, -, hl⟩ := List.mem_filterMap.mp h
  exact ⟨l, hl⟩

end Value.IsPartOf

namespace Query

variable {s : Scope}

theorem accepts_settles (f : Filter) (candidate : Value) :
    Settles Limit.IsOfQuery (fun _ => True) ((verdicts s).accepts f candidate) := by
  show Settles _ _ (f.verdict s candidate).accepts
  cases h : f.verdict s candidate with
  | exceeds l => exact Filter.limit_of_verdict h
  | _ => trivial

theorem keep_settles (f : Filter) (vs : List Value) :
    Settles Limit.IsOfQuery (∀ u ∈ ·, u ∈ vs) (keep (verdicts s) f vs) := by
  induction vs with
  | nil => exact List.forall_mem_nil _
  | cons v rest ih =>
      refine (accepts_settles f v).bind fun accepted _ => ih.bind fun kept hkept => ?_
      have hrest : ∀ u ∈ kept, u ∈ v :: rest := fun u hu => List.mem_cons_of_mem v (hkept u hu)
      cases accepted with
      | false => exact hrest
      | true => exact List.forall_mem_cons.mpr ⟨List.mem_cons_self, hrest⟩

theorem collect_settles {find : Value → Except Limit (List Value)} {root : Value}
    {vs : List Value} (hvs : ∀ v ∈ vs, v.IsPartOf root)
    (hfind : ∀ v, Settles Limit.IsOfQuery (∀ u ∈ ·, u.IsPartOf v) (find v)) :
    Settles Limit.IsOfQuery (∀ u ∈ ·, u.IsPartOf root) (collect find vs) := by
  induction vs with
  | nil => exact List.forall_mem_nil _
  | cons v rest ih =>
      obtain ⟨hv, hrest⟩ := List.forall_mem_cons.mp hvs
      refine (hfind v).bind fun first hfirst => (ih hrest).bind fun more hmore => ?_
      exact List.forall_mem_append.mpr ⟨fun u hu => (hfirst u hu).trans hv, hmore⟩

theorem selectStep_settles (st : Step) (v : Value) :
    Settles Limit.IsOfQuery (∀ u ∈ ·, u.IsPartOf v) (selectStep st v) := by
  have heq := selectStep_eq st v
  cases hp : stepPosition st v with
  | ok position =>
      rw [heq, hp]
      intro u hu
      obtain ⟨i, -, hi⟩ := Option.bind_eq_some_iff.mp (Option.mem_toList.mp hu)
      exact .child (List.mem_of_getElem? hi)
  | error l =>
      rw [hp] at heq
      rw [heq]
      exact (Step.selectStep_eq_error_iff.mp heq).isOfQuery

mutual

theorem select_settles : ∀ (segment : Segment Filter) (v : Value),
    Settles Limit.IsOfQuery (∀ u ∈ ·, u.IsPartOf v) (select (verdicts s) segment v)
  | .step st, v => by
      have hstep := selectStep_settles st v
      have hselect : select (verdicts s) (.step st) v = selectStep st v := by
        unfold select
        cases selectStep st v <;> rfl
      rwa [hselect]
  | .wildcard, v => fun u hu => .child hu
  | .slice sl, v => by
      unfold select
      split
      · next xs =>
          intro u hu
          obtain ⟨i, -, hi⟩ := List.mem_filterMap.mp hu
          exact .child (List.mem_of_getElem? hi)
      · exact List.forall_mem_nil _
  | .filter f, v => (keep_settles f v.children).mono fun _ h u hu => .child (h u hu)
  | .selection selectors, v => selectAll_settles selectors v
  | .descent inner, v => collect_settles (fun _ hu => .descendant hu) (select_settles inner)

theorem selectAll_settles : ∀ (segments : List (Segment Filter)) (v : Value),
    Settles Limit.IsOfQuery (∀ u ∈ ·, u.IsPartOf v) (selectAll (verdicts s) segments v)
  | [], _ => List.forall_mem_nil _
  | segment :: rest, v =>
      (select_settles segment v).bind fun _ hfirst =>
        (selectAll_settles rest v).bind fun _ hmore => List.forall_mem_append.mpr ⟨hfirst, hmore⟩

end

/-- A query comes to parts of what it is run on, unless it runs past a limit. -/
theorem run_settles (segments : List (Segment Filter)) (root : Value) :
    Settles Limit.IsOfQuery (∀ u ∈ ·, u.IsPartOf root) (run (verdicts s) segments root) := by
  have hfrom : ∀ found : List Value, (∀ v ∈ found, v.IsPartOf root) →
      Settles Limit.IsOfQuery (∀ u ∈ ·, u.IsPartOf root) (runFrom (verdicts s) segments found) := by
    induction segments with
    | nil => exact fun _ hfound => hfound
    | cons segment rest ih =>
        exact fun found hfound => (collect_settles hfound (select_settles segment)).bind ih
  exact hfrom [root] (List.forall_mem_singleton.mpr (.refl root))

end Query

namespace Expr

/-- The evaluation of a query comes to a list of parts of the scope as one object, or
stops at a limit of numbers. It makes no calls, reports nothing, and leaves
what is outside as it was. -/
theorem eval_jsonPath_ends (host : Host σ) (text : String)
    (segments : List (Segment Query.Filter)) (s : Scope) (w : World σ) :
    ∃ notes,
      (∃ found, (eval host (.jsonPath text segments) s).run.run w =
          (.ok (.arr found), { w with notes }) ∧
        ∀ v ∈ found, ∃ l : Location, (Value.obj s.toFields).at? l = some v) ∨
      ∃ l, (eval host (.jsonPath text segments) s).run.run w =
          (.error (.failed (.limit l)), { w with notes }) ∧
        (l = .intTooLarge ∨ ∃ digits, l = .longNumeral digits) := by
  have hsettles := Query.run_settles (s := s) segments (.obj s.toFields)
  have hends : EndsAs stopAt (eval host (.jsonPath text segments) s) (do
      let found ← Query.run (Query.verdicts s) segments (.obj s.toFields)
      .ok (.arr found)) := .bind (run_endsAs s segments _) fun _ => .pure _
  obtain ⟨notes, hw⟩ := hends w
  refine ⟨notes, ?_⟩
  cases hr : Query.run (Query.verdicts s) segments (.obj s.toFields) with
  | ok found =>
      rw [hr] at hw hsettles
      exact .inl ⟨found, hw, hsettles⟩
  | error l =>
      rw [hr] at hw hsettles
      exact .inr ⟨l, hw, hsettles⟩

end Expr

end Conduit
