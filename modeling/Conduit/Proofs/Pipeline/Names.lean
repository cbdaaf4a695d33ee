import Conduit.Proofs.Pipeline.Check
import Conduit.Proofs.Pipeline.Run

/-!
# Checked pipelines read bound names

If the check of a pipeline finds nothing wrong, then no run of it looks up a
name that is not there: the first name of each path that is read outside
the filters of queries, and of each placeholder of a template without
variables of its own, is bound in the scope that it is looked up in.

The check follows the names that are bound before a stage, the evaluation
follows scopes; the two meet in `Scope.Binds`, which child scopes and the
binding of a stage's value both carry on.
-/

namespace Conduit

/-- A lookup of a name finds it. What filters of queries read is left open. -/
def Note.IsBound : Note → Prop
  | .operation (.read path s) => s.contains path.head = true
  | .operation (.renderIn _ template s) => ∀ p ∈ template.paths, s.contains p.head = true
  | _ => True

theorem isBound_of_isClosed {o : Operation} (h : o.isClosed = true) :
    (Note.operation o).IsBound := by
  cases o with
  | read path s => cases h
  | renderIn engine template s => cases h
  | _ => trivial

/-- The contract that names are looked up where they are bound. -/
def Contract.bound : Contract := .ofNotes Note.IsBound isBound_of_isClosed

namespace Expr

variable {σ : Type} {host : Host σ} {bound : List String} {e : Expr} {s : Scope}

theorem bound_allowsPart {p : Part} (h : p.unbound = []) : Contract.bound.AllowsPart host p := by
  obtain ⟨bound, e⟩ := p
  refine Contract.ofNotes_allowsPart ?_ ?_ fun _ _ => trivial
  · rintro path s rfl hs
    exact hs _ (mem_of_without_eq_nil h List.mem_cons_self)
  · rintro engine template s rfl hs q hq
    exact hs _ (mem_of_without_eq_nil h (List.mem_map_of_mem hq))

/-- An expression without unbound names looks up bound names only. -/
theorem eval_bound (h : e.unbound bound = []) (hs : s.Binds bound) :
    Action.Meets .bound (eval host e s) := by
  refine eval_meets (Contract.ofNotes_allowsFilters fun _ => trivial) e s
    (fun p hp => bound_allowsPart ?_) hs
  rw [unbound_eq_flatMap] at h
  exact List.flatMap_eq_nil_iff.mp h p hp

end Expr

namespace Pipeline

variable {σ : Type} {host : Host σ}

/-- Stages in which a check finds nothing wrong, in a scope that binds what
the check takes to be bound. -/
def AllBound (stages : List Stage) (s : Scope) : Prop :=
  ∃ schemas known placed, placed.map Placed.stage = stages ∧
    (∀ d ∈ checkStages schemas known placed, False) ∧ s.Binds known.available

theorem unbound_eq_nil {known : Known} {p : Placed} (h : ∀ d ∈ checkReads known p, False) :
    p.stage.value.unbound known.available = [] :=
  List.eq_nil_iff_forall_not_mem.mpr fun _ hname => h _ (mem_checkReads hname)

/-- What is known after a stage is bound once its value is. -/
theorem binds_after {known : Known} {p : Placed} {s t : Scope} {v : Value}
    (hs : s.Binds known.available) (ht : bindValue p.stage.name v s = .ok t) :
    t.Binds (known.after p).available := by
  unfold Known.after
  unfold bindValue at ht
  cases hname : p.stage.name with
  | some name =>
      intro other hother
      rw [hname] at ht
      rw [Scope.contains_bind ht, Bool.or_eq_true, beq_iff_eq]
      rcases mem_available_add.mp hother with h | rfl
      · exact .inr (hs other h)
      · exact .inl rfl
  | none =>
      rw [hname] at ht
      cases ht
      exact hs

/-- Reading bound names only, stage after stage. -/
def boundInvariant (host : Host σ) : Invariant host Note.IsBound where
  holds := AllBound
  value := by
    rintro stage rest s ⟨schemas, known, placed, hplaced, hcheck, hs⟩
    obtain ⟨p, others, rfl, rfl, -⟩ := List.map_eq_cons_iff.mp hplaced
    have hvalue : Action.Meets .bound (p.stage.value.eval host s) :=
      Expr.eval_bound (unbound_eq_nil (ofFirst hcheck).reads) hs
    exact .of_meets (evalStage_meets hvalue)
  binding _ _ := trivial
  next := by
    rintro stage rest s t v ⟨schemas, known, placed, hplaced, hcheck, hs⟩ ht
    obtain ⟨p, others, rfl, rfl, rfl⟩ := List.map_eq_cons_iff.mp hplaced
    exact ⟨schemas, known.after p, others, rfl, (ofFirst hcheck).others, binds_after hs ht⟩

/-- A pipeline in which the check finds nothing wrong, run in a scope that
binds the names that the check was told of, looks up bound names only,
whatever the database and the clock do. -/
theorem run_reads_bound {names : List String} {schemas : Option (List String)} {location : String}
    {stages : Pipeline} {s : Scope} (hcheck : check names schemas location stages = [])
    (hs : s.Binds names) (host : Host σ) (w : World σ) :
    ∀ n ∈ ((run host stages s).run w).2.notes, n ∈ w.notes ∨ n.IsBound := by
  have hall : AllBound (stages ++ []) s := by
    refine ⟨schemas, { available := names }, Placed.number location stages, ?_, ?_, hs⟩
    · rw [map_stage_number, List.append_nil]
    · rw [check] at hcheck
      rw [hcheck]
      intro d hd
      cases hd
  exact (((boundInvariant host).run hall) w).1

/-- Two stages: the names of the members of `team`, and the first of them
under a template that has no variables of its own. -/
def roster : Pipeline :=
  [⟨some "names", .map (.get ⟨"team", "team", []⟩) "member" (.get ⟨"member.name", "member",
      [.field "name"]⟩)⟩,
    ⟨none, .renderString ⟨"{{names[0]}}", [⟨"names[0]", "names", [.index 0]⟩],
      [.slot 0]⟩ none⟩]

/-- A scope with a team of one. -/
def team : Scope := .ofFields [("team", .arr [.obj [("name", .str "Ada")]])]

theorem run_reads_bound_roster :
    check ["team"] none "pipeline" roster = [] ∧ team.Binds ["team"] ∧
      ∀ n ∈ ((run .bare roster team).run { outside := () }).2.notes,
        n ∈ ([] : List Note) ∨ n.IsBound := by
  have hcheck : check ["team"] none "pipeline" roster = [] := by decide
  have hteam : team.Binds ["team"] := by decide
  exact ⟨hcheck, hteam, run_reads_bound hcheck hteam _ _⟩

end Pipeline

end Conduit
