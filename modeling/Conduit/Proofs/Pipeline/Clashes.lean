import Conduit.Proofs.Pipeline.Check
import Conduit.Proofs.Pipeline.Run

/-!
# Names that cannot be bound

A stage whose name is bound already breaks its run. The check of a pipeline
reports a stage that has the name of an earlier one, or a name of a request.
The names that are bound before the first stage it takes into account for what
a stage reads, but not for what a stage is called: in a run of a pipeline
without errors, the stages that break the run are exactly those that have one
of these names.
-/

namespace Conduit

/-- A name that is about to be bound is none of a request, and it cannot be
bound if it is among the given ones, and only then. -/
def Note.ClashesWith (names : List String) : Note → Prop
  | .binding name s => name ∉ reservedNames ∧
    ∀ v, s.bind name v = .error (.duplicateBinding name) ↔ name ∈ names
  | _ => True

/-- The contract that nothing is bound but names that are given or new. -/
def Contract.clashes (names : List String) : Contract :=
  .ofNotes (Note.ClashesWith names) fun _ => trivial

namespace Expr

variable {σ : Type} {host : Host σ} {names : List String}

/-- The evaluation of a stage binds no name of the run. -/
theorem eval_clashes (e : Expr) (s : Scope) : Action.Meets (.clashes names) (eval host e s) := by
  have hparts : ∀ p ∈ parts [] e, (Contract.clashes names).AllowsPart host p := by
    intro p _
    exact Contract.ofNotes_allowsPart (fun _ _ _ _ => trivial) (fun _ _ _ _ _ => trivial)
      fun _ _ => trivial
  have hs : s.Binds [] := by
    intro name hname
    cases hname
  exact eval_meets (Contract.ofNotes_allowsFilters fun _ => trivial) e s hparts hs

end Expr

namespace Pipeline

variable {σ : Type} {host : Host σ} {names : List String}

/-- Stages without an error, in a scope that binds the given names and those
of the stages that the check has seen, and no others. -/
def BindsSeen (names : List String) (stages : List Stage) (s : Scope) : Prop :=
  ∃ schemas known placed, placed.map Placed.stage = stages ∧
    (∀ d ∈ checkStages schemas known placed, d.severity ≠ .error) ∧
    ∀ name, s.contains name = true ↔ name ∈ names ∨ known.seen.contains name = true

/-- After a stage the scope binds what is known then. -/
theorem contains_after {known : Known} {p : Placed} {s t : Scope} {v : Value}
    (hfresh : ∀ {name}, p.stage.name = some name → ∀ d ∈ checkName known p name,
      d.severity ≠ .error)
    (hs : ∀ name, s.contains name = true ↔ name ∈ names ∨ known.seen.contains name = true)
    (ht : bindValue p.stage.name v s = .ok t) (name : String) :
    t.contains name = true ↔ name ∈ names ∨ (known.after p).seen.contains name = true := by
  unfold Known.after
  unfold bindValue at ht
  cases hname : p.stage.name with
  | some other =>
      obtain ⟨hreserved, hseen⟩ := fresh_of_checkName (hfresh hname)
      rw [hname] at ht
      rw [Scope.contains_bind ht, Bool.or_eq_true, beq_iff_eq, hs name,
        contains_seen_add hreserved hseen, or_left_comm]
  | none =>
      rw [hname] at ht
      cases ht
      exact hs name

/-- Binding new names, stage after stage, as long as none is a given one. -/
def clashInvariant (host : Host σ) (names : List String) :
    Invariant host (Note.ClashesWith names) where
  holds := BindsSeen names
  value := by
    intro stage rest s _
    have hvalue : Action.Meets (.clashes names) (stage.value.eval host s) := Expr.eval_clashes _ s
    exact .of_meets (evalStage_meets hvalue)
  binding := by
    rintro stage rest s name ⟨schemas, known, placed, hplaced, hcheck, hs⟩ hname
    obtain ⟨p, others, rfl, rfl, -⟩ := List.map_eq_cons_iff.mp hplaced
    obtain ⟨hreserved, hseen⟩ := fresh_of_checkName ((ofFirst hcheck).name hname)
    refine ⟨hreserved, fun v => ?_⟩
    rw [Scope.bind_eq_duplicate_iff, hs name, hseen]
    exact or_iff_left Bool.false_ne_true
  next := by
    rintro stage rest s t v ⟨schemas, known, placed, hplaced, hcheck, hs⟩ ht
    obtain ⟨p, others, rfl, rfl, rfl⟩ := List.map_eq_cons_iff.mp hplaced
    exact ⟨schemas, known.after p, others, rfl, (ofFirst hcheck).others,
      contains_after (ofFirst hcheck).name hs ht⟩

/-- A pipeline without errors, run where the names are bound that the check
was told of and no others: whatever the database and the clock do, the stages
that break the run by their names are those with one of these names, and none
has a name of a request. -/
theorem run_clashes_iff {schemas : Option (List String)} {location : String} {stages : Pipeline}
    {s : Scope} (hok : Diagnostic.areOk (check names schemas location stages) = true)
    (hs : ∀ name, s.contains name = true ↔ name ∈ names) (host : Host σ) (w : World σ) :
    ∀ n ∈ ((run host stages s).run w).2.notes, n ∈ w.notes ∨ n.ClashesWith names := by
  have hseen : BindsSeen names (stages ++ []) s := by
    refine ⟨schemas, { available := names }, Placed.number location stages, ?_, ?_, ?_⟩
    · rw [map_stage_number, List.append_nil]
    · intro d hd
      simpa using List.all_eq_true.mp hok d hd
    · intro name
      rw [hs name]
      exact (or_iff_left Bool.false_ne_true).symm
  exact (((clashInvariant host names).run hseen) w).1

/-- A copy of `x` under a new name, and its copy back. -/
def copyBack : Pipeline :=
  [⟨some "y", .get ⟨"x", "x", []⟩⟩, ⟨some "x", .get ⟨"y", "y", []⟩⟩]

/-- A scope that binds `x` alone. -/
def onlyX : Scope := .ofFields [("x", .int 1)]

theorem run_clashes_iff_copyBack :
    Diagnostic.areOk (check ["x"] none "pipeline" copyBack) = true ∧
      (∀ name, onlyX.contains name = true ↔ name ∈ ["x"]) ∧
      ∀ n ∈ ((run .bare copyBack onlyX).run { outside := () }).2.notes,
        n ∈ ([] : List Note) ∨ n.ClashesWith ["x"] := by
  have hok : Diagnostic.areOk (check ["x"] none "pipeline" copyBack) = true := by decide
  have hs : ∀ name, onlyX.contains name = true ↔ name ∈ ["x"] := fun _ => Scope.contains_ofFields
  exact ⟨hok, hs, run_clashes_iff hok hs _ _⟩

/-- Nothing is found wrong with the second stage, whose name is bound before
the first, and yet its value cannot be bound. -/
theorem copyBack_breaks :
    check ["x"] none "pipeline" copyBack = [] ∧
      (∀ name, onlyX.contains name = true ↔ name ∈ ["x"]) ∧
      ((run .bare copyBack onlyX).run { outside := () }).1.outcome =
        .error (.duplicateBinding "x") :=
  ⟨by decide, fun _ => Scope.contains_ofFields, rfl⟩

end Pipeline

end Conduit
