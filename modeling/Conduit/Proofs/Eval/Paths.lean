import Conduit.Proofs.Query.Path
import Conduit.Proofs.Query.Walk
import Conduit.Proofs.Scope
import Mathlib.Data.List.Permutation

/-!
# One path in two languages

Steps lead a query to the one value that they lead a dot path to, and to none
where the dot path ends in a failure that is no limit. So a text that both
languages read into the same steps has the same meaning in both, up to the
list that a query gives.
-/

namespace Conduit

namespace Expr

variable {σ : Type} {s : Scope} {w : World σ}

/-! ## Steps of a query -/

theorem run_select (s : Scope) (st : Step) (v : Value) (w : World σ) :
    (Query.select (judge s) (.step st) v : Action σ (List Value)).run.run w =
      ((Query.selectStep st v).mapError fun l => .failed (.limit l),
        { w with notes := .operation (.step st v) :: w.notes }) := by
  unfold Query.select
  cases Query.selectStep st v <;> rfl

/-- What steps lead a query to is what they lead a dot path to. -/
theorem run_runFrom_steps (path : String) (steps : List Step) (v : Value) (w : World σ) :
    ((Query.runFrom (judge s) (steps.map .step) [v] : Action σ (List Value)).run.run w).1 =
      match DotPath.follow path steps v with
      | .ok u => .ok [u]
      | .error (.limit l) => .error (.failed (.limit l))
      | .error _ => .ok [] := by
  induction steps generalizing v w with
  | nil => rfl
  | cons st rest ih =>
      rw [List.map_cons, Query.runFrom, Query.collect_single, Action.run_bind, run_select,
        DotPath.follow]
      rcases Step.follow_cases path st v with ⟨u, hf, hs⟩ | ⟨l, hf, hs⟩ | ⟨f, hf, hown, hs⟩
      · rw [hf, hs]
        exact ih u _
      · rw [hf, hs]
        rfl
      · rw [hf, hs]
        show ((Query.runFrom (judge s) _ [] : Action σ (List Value)).run.run _).1 = _
        rw [Query.runFrom_nil]
        cases f <;> first | rfl | cases hown

theorem follow_steps {p : DotPath} (hs : s.IsDistinct) :
    DotPath.follow p.text p.steps (.obj s.toFields) = s.resolve p := by
  rw [DotPath.steps, DotPath.follow, Scope.resolve, ← Scope.get?_toFields hs]
  cases hhead : Fields.get? p.head s.toFields with
  | none =>
      simp only [Step.follow, Value.field?, hhead]
      rfl
  | some v =>
      simp only [Step.follow, Value.field?, hhead]
      rfl

theorem run_get (host : Host σ) (p : DotPath) (s : Scope) (w : World σ) :
    ((eval host (.get p) s).run.run w).1 = (s.resolve p).mapError .failed := by
  rw [eval]
  exact Action.run_perform _ _

theorem run_jsonPath (host : Host σ) (text : String) {p : DotPath} (hs : s.IsDistinct)
    (w : World σ) :
    ((eval host (.jsonPath text (p.steps.map .step)) s).run.run w).1 =
      match s.resolve p with
      | .ok v => .ok (.arr [v])
      | .error (.limit l) => .error (.failed (.limit l))
      | .error _ => .ok (.arr []) := by
  have hrun := run_runFrom_steps (s := s) p.text p.steps (.obj s.toFields) w
  rw [follow_steps hs] at hrun
  rw [eval, Action.run_bind, Query.run]
  generalize s.resolve p = r at hrun
  rcases h : (Query.runFrom (judge s) (p.steps.map .step) [.obj s.toFields] :
    Action σ (List Value)).run.run w with ⟨signal | found, w'⟩ <;> rw [h] at hrun
  · split at hrun <;> cases hrun
    rfl
  · split at hrun <;> cases hrun <;> rfl

/-- A text that is a dot path and a query of steps has the same steps in both
languages if and only if each numeral after a point is written as the number
it stands for. Then the query comes to the one value of the path, and to none
where the path leads nowhere. -/
theorem jsonPath_agrees {text : String} {p : DotPath} {steps : List Step}
    (htight : Query.IsTight text) (hroot : text.toList.head? ≠ some '$')
    (hp : DotPath.parse text = .ok p) (hsteps : Query.parse text = .ok (steps.map .step)) :
    (steps = p.steps ↔ Query.WritesPlainNumerals text) ∧
      (Query.WritesPlainNumerals text → ∀ {σ : Type} (host : Host σ) (s : Scope) (w : World σ),
        s.IsDistinct →
          (∀ v, ((eval host (.get p) s).run.run w).1 = .ok v →
            ((eval host (.jsonPath text (steps.map .step)) s).run.run w).1 = .ok (.arr [v])) ∧
          ∀ f, ((eval host (.get p) s).run.run w).1 = .error (.failed f) →
            f.kind?.any misses.contains = true →
            ((eval host (.jsonPath text (steps.map .step)) s).run.run w).1 = .ok (.arr [])) := by
  have hiff := Query.steps_eq_iff htight hroot hp hsteps
  refine ⟨hiff, fun hplain σ host s w hs => ?_⟩
  obtain rfl := hiff.mpr hplain
  rw [run_jsonPath host text hs w, run_get]
  generalize s.resolve p = r
  constructor
  · intro v hv
    cases r with
    | error f => cases hv
    | ok u =>
        cases hv
        rfl
  · intro f hf hmisses
    cases r with
    | ok u => cases hf
    | error g =>
        cases hf
        cases f <;> first | rfl | cases hmisses

/-- A path with a key in quotes, an index and a position after a point. -/
def firstPost : DotPath :=
  ⟨"posts['by day'][-1].0", "posts", [.field "by day", .index (-1), .field "0"]⟩

def firstPostTokens : List Query.Token :=
  [⟨.name "posts", 0, 5⟩, ⟨.mark .openBracket, 5, 1⟩, ⟨.string "by day", 6, 8⟩,
    ⟨.mark .closeBracket, 14, 1⟩, ⟨.mark .openBracket, 15, 1⟩, ⟨.number (.int (-1)), 16, 2⟩,
    ⟨.mark .closeBracket, 18, 1⟩, ⟨.mark .point, 19, 1⟩, ⟨.number (.int 0), 20, 1⟩]

def posted : Scope :=
  .ofFields [("posts", .obj [("by day", .arr [.arr [], .arr [.str "first", .str "second"]])])]

theorem jsonPath_agrees_firstPost : Query.IsTight firstPost.text ∧
    firstPost.text.toList.head? ≠ some '$' ∧ DotPath.parse firstPost.text = .ok firstPost ∧
    Query.parse firstPost.text = .ok (firstPost.steps.map .step) ∧
    Query.WritesPlainNumerals firstPost.text ∧ posted.IsDistinct ∧
    ((eval .bare (.get firstPost) posted).run.run { outside := () }).1 = .ok (.str "first") ∧
    ((eval .bare (.jsonPath firstPost.text (firstPost.steps.map .step)) posted).run.run
      { outside := () }).1 = .ok (.arr [.str "first"]) := by
  have htight : Query.IsTight firstPost.text := by decide
  have hroot : firstPost.text.toList.head? ≠ some '$' := by decide
  have hparse : DotPath.parse firstPost.text = .ok firstPost := by cbv
  have hscan : Query.scan firstPost.text = .ok firstPostTokens := rfl
  have hstart : Query.start firstPost.text firstPostTokens =
      .ok (firstPost.steps.map .step) := by cbv
  have hblank : firstPost.text.toList.all Text.isBlank = false := rfl
  have hsteps : Query.parse firstPost.text = .ok (firstPost.steps.map .step) := by
    rw [Query.parse, hblank, hscan]
    exact hstart
  have hplain : Query.WritesPlainNumerals firstPost.text := by
    intro toks htoks
    rw [hscan] at htoks
    cases htoks
    exact ⟨rfl, trivial⟩
  have hs : posted.IsDistinct := by decide
  have hget : ((eval .bare (.get firstPost) posted).run.run { outside := () }).1 =
    .ok (.str "first") := rfl
  exact ⟨htight, hroot, hparse, hsteps, hplain, hs, hget,
    ((jsonPath_agrees htight hroot hparse hsteps).2 hplain .bare posted _ hs).1 _ hget⟩

/-- The numeral of a name is not a name of the numeral's number. -/
theorem jsonPath_numeral_respelled :
    DotPath.parse "a.007" = .ok ⟨"a.007", "a", [.field "007"]⟩ ∧
      Query.parse "a.007" = .ok [.step (.field "a"), .step (.field "7")] := by
  constructor
  · cbv
  · cbv

end Expr

end Conduit
