import Conduit.Config.Check
import Conduit.Config.Serve
import Conduit.Proofs.Pipeline.Check
import Conduit.Proofs.Pipeline.Run

/-!
# What a check of a configuration promises

If the check of a configuration finds no error, then whatever is requested
and whatever database and clock do, every route can be served: its
middleware is defined, no stage is given a name that is already bound, and
every schema that is looked up by its name is in the registry.

The names that are bound in the scope of a run are those of the request and
those of the stages that were completed; the check knows them all, whether
the stages are the route's own or those of its middleware. What a run notes
of names tells how it ends, so no run ends with a name bound twice
(`serve_binds`).
-/

namespace Conduit

/-- A schema that is looked up is in the registry, and a name that is about
to be bound can be bound. -/
def Note.IsSound (schemas : Fields (Fields Value)) : Note → Prop
  | .schema name => schemas.contains name = true
  | .binding name s => ∀ v, s.bind name v ≠ .error (.duplicateBinding name)
  | .filtered n => n.IsSound schemas
  | .operation _ => True

/-- The contract that all schemas are found. -/
def Contract.sound (schemas : Fields (Fields Value)) : Contract :=
  .ofNotes (Note.IsSound schemas) fun _ => trivial

theorem Contract.sound_allowsFilters (schemas : Fields (Fields Value)) :
    (Contract.sound schemas).AllowsFilters := by
  refine ⟨.sound schemas, fun h n hn => ?_, fun p s n hn => ?_⟩
  · obtain ⟨m, hm, rfl⟩ := List.mem_map.mp hn
    exact h m hm
  · obtain rfl := List.mem_singleton.mp hn
    trivial

namespace Expr

variable {σ : Type} {host : Host σ} {bound : List String} {e : Expr} {s : Scope}

/-- An expression that names registered schemas only looks up no other. -/
theorem eval_sound (h : ∀ name ∈ e.schemaNames, host.schemas.contains name = true) (s : Scope) :
    Action.Meets (.sound host.schemas) (eval host e s) := by
  have hparts : ∀ p ∈ parts [] e, (Contract.sound host.schemas).AllowsPart host p := by
    intro p hp
    refine Contract.ofNotes_allowsPart (fun _ _ _ _ => trivial) (fun _ _ _ _ _ => trivial) ?_
    intro name hname
    refine h name ?_
    rw [schemaNames_eq_flatMap []]
    exact List.mem_flatMap.mpr ⟨p, hp, hname⟩
  exact eval_meets (Contract.sound_allowsFilters _) e s hparts fun name hname => by cases hname

end Expr

namespace Pipeline

variable {σ : Type} {host : Host σ}

/-- Stages without an error, in a scope that binds no more than the names of
a request and those of stages that the check has seen. -/
def AllSound (schemas : Fields (Fields Value)) (stages : List Stage) (s : Scope) : Prop :=
  ∃ known placed, placed.map Placed.stage = stages ∧
    (∀ d ∈ checkStages (some schemas.names) known placed, d.severity ≠ .error) ∧
    ∀ name, s.contains name = true → name ∈ reservedNames ∨ known.seen.contains name = true

/-- After a named stage its name is known, and so is all that was known before. -/
theorem known_after {known : Known} {p : Placed} {name other : String}
    (h : name = other ∨ name ∈ reservedNames ∨ known.seen.contains name = true) :
    name ∈ reservedNames ∨ (known.add p other).seen.contains name = true := by
  unfold Known.add
  dsimp only
  split
  · next hother =>
      rw [Bool.or_eq_true, List.contains_iff_mem] at hother
      rcases h with rfl | h
      · exact hother
      · exact h
  · rw [Fields.contains_append, Bool.or_eq_true]
    rcases h with rfl | h | h
    · exact .inr (.inr (Fields.contains_iff_mem_names.mpr List.mem_cons_self))
    · exact .inl h
    · exact .inr (.inl h)

/-- Schemas without an error are registered. -/
theorem registered_of_checkSchemas {schemas : Fields (Fields Value)} {p : Placed}
    (h : ∀ d ∈ checkSchemas (some schemas.names) p, d.severity ≠ .error) :
    ∀ name ∈ p.stage.value.schemaNames, schemas.contains name = true := by
  intro name hname
  by_cases hr : schemas.names.contains name = true
  · exact Fields.contains_iff_mem_names.mpr (List.contains_iff_mem.mp hr)
  · exact absurd rfl (h _ (mem_checkSchemas hname (eq_false_of_ne_true hr)))

/-- Running without a missing schema and without a duplicate name, stage
after stage. -/
def soundInvariant (host : Host σ) : Invariant host (Note.IsSound host.schemas) where
  holds := AllSound host.schemas
  value := by
    rintro stage rest s ⟨known, placed, hplaced, hcheck, -⟩
    obtain ⟨p, others, rfl, rfl, -⟩ := List.map_eq_cons_iff.mp hplaced
    have hvalue : Action.Meets (.sound host.schemas) (p.stage.value.eval host s) :=
      Expr.eval_sound (registered_of_checkSchemas (ofFirst hcheck).lookups) s
    exact .of_meets (evalStage_meets hvalue)
  binding := by
    rintro stage rest s name ⟨known, placed, hplaced, hcheck, hs⟩ hname v
    obtain ⟨p, others, rfl, rfl, -⟩ := List.map_eq_cons_iff.mp hplaced
    obtain ⟨hreserved, hseen⟩ := fresh_of_checkName ((ofFirst hcheck).name hname)
    have hfree : ¬s.contains name = true := by
      intro hbound
      rcases hs name hbound with h | h
      · exact hreserved h
      · rw [hseen] at h
        cases h
    rw [Scope.bind, if_neg hfree]
    intro hbind
    cases hbind
  next := by
    rintro stage rest s t v ⟨known, placed, hplaced, hcheck, hs⟩ ht
    obtain ⟨p, others, rfl, rfl, rfl⟩ := List.map_eq_cons_iff.mp hplaced
    refine ⟨known.after p, others, rfl, (ofFirst hcheck).others, fun name hname => ?_⟩
    unfold Known.after
    unfold bindValue at ht
    cases hstage : p.stage.name with
    | some other =>
        rw [hstage] at ht
        rw [Scope.contains_bind ht, Bool.or_eq_true, beq_iff_eq] at hname
        rcases hname with rfl | hname
        · exact known_after (.inl rfl)
        · exact known_after (.inr (hs name hname))
    | none =>
        rw [hstage] at ht
        cases ht
        exact hs name hname

end Pipeline

namespace Config

variable {σ : Type} {c : Config} {r : Route}

theorem map_stage_placed (location : String) (stages : Pipeline) :
    (placed location stages).map Placed.stage = stages :=
  Pipeline.map_stage_number _ stages

/-- The stages that the check of a route looks at are those that it runs. -/
theorem map_stage_middleware {middleware : List Pipeline} {names : List String}
    (h : names.mapM (fun name => c.middleware.get? name) = some middleware) :
    (names.flatMap c.middlewareStages).map Placed.stage = middleware.flatten := by
  induction names generalizing middleware with
  | nil =>
      cases h
      rfl
  | cons name rest ih =>
      simp only [List.mapM_cons, Option.bind_eq_bind, Option.bind_eq_some_iff] at h
      obtain ⟨stages, hstages, others, hothers, hmiddleware⟩ := h
      cases hmiddleware
      rw [List.flatMap_cons, List.map_append, ih hothers, middlewareStages, hstages,
        map_stage_placed, List.flatten_cons]

/-- All diagnostics of a route are diagnostics of the configuration. -/
theorem mem_check_of_mem_checkRoute (hr : r ∈ c.routes) :
    ∃ index, ∀ d ∈ c.checkRoute index r, d ∈ c.check := by
  obtain ⟨i, hi⟩ := List.mem_iff_getElem?.mp hr
  refine ⟨i, fun d hd => ?_⟩
  refine List.mem_append_left _ (List.mem_flatten.mpr ⟨c.checkRoute i r, ?_, hd⟩)
  rw [List.mem_iff_getElem?]
  exact ⟨i, by rw [List.getElem?_mapIdx, hi]; rfl⟩

/-- Middleware without an error is defined. -/
theorem middleware_defined {index : Nat}
    (h : ∀ d ∈ c.unknownMiddleware index r, d.severity ≠ .error) :
    ∀ name ∈ r.middleware, c.middleware.contains name = true := by
  intro name hname
  by_cases hc : c.middleware.contains name = true
  · exact hc
  · refine absurd rfl (h _ (List.mem_map_of_mem (List.mem_filter.mpr ⟨hname, ?_⟩)))
    rw [eq_false_of_ne_true hc]
    rfl

/-- What is defined can be looked up, one after another. -/
theorem exists_mapM_get? {names : List String}
    (h : ∀ name ∈ names, c.middleware.contains name = true) :
    ∃ middleware, names.mapM (fun name => c.middleware.get? name) = some middleware := by
  induction names with
  | nil => exact ⟨[], rfl⟩
  | cons name rest ih =>
      obtain ⟨hname, hrest⟩ := List.forall_mem_cons.mp h
      obtain ⟨stages, hstages⟩ := Option.isSome_iff_exists.mp hname
      obtain ⟨others, hothers⟩ := ih hrest
      exact ⟨stages :: others, by rw [List.mapM_cons, hstages, hothers]; rfl⟩

/-- The runs of a route's pipelines in turn keep an invariant. -/
theorem runAfter_notes {host : Host σ} {Good : Note → Prop} (inv : Pipeline.Invariant host Good)
    {middleware : List Pipeline} {last : Pipeline} {s : Scope}
    (h : inv.holds (middleware.flatten ++ last) s) :
    Pipeline.Notes Good (fun _ => True) (Pipeline.runAfter host middleware last s) := by
  induction middleware generalizing s with
  | nil =>
      rw [List.flatten_nil, List.nil_append, ← List.append_nil last] at h
      intro w
      exact ⟨((inv.run h) w).1, trivial⟩
  | cons first rest ih =>
      rw [List.flatten_cons, List.append_assoc] at h
      refine .bind (inv.run h) fun ended hended => ?_
      split
      · next houtcome => exact ih (hended ⟨_, _, houtcome⟩)
      · exact .pure trivial

/-- The notes of the runs in turn tell whether one of them fails to bind a
name. -/
theorem runAfter_notesTell (host : Host σ) (middleware : List Pipeline) (last : Pipeline)
    (s : Scope) (w : World σ) :
    ∃ new, ((Pipeline.runAfter host middleware last s).run w).2.notes = new ++ w.notes ∧
      Pipeline.NotesTell host (middleware.flatten ++ last) new
        ((Pipeline.runAfter host middleware last s).run w).1 := by
  induction middleware generalizing s w with
  | nil => exact Pipeline.runFrom_notesTell host last [] .null s w
  | cons first rest ih =>
      obtain ⟨earlier, hearlier, hfirst⟩ := Pipeline.runFrom_notesTell host first [] .null s w
      rw [Pipeline.runAfter, StateT.run_bind, List.flatten_cons, List.append_assoc]
      change ((Pipeline.run host first s).run w).2.notes = _ at hearlier
      change Pipeline.NotesTell host first earlier ((Pipeline.run host first s).run w).1 at hfirst
      have hlast : Pipeline.NotesTell host (first ++ (rest.flatten ++ last)) earlier
          ((Pipeline.run host first s).run w).1 :=
        ⟨hfirst.clash, fun hend => (hfirst.noted hend).imp id
          fun ⟨stage, hstage, hfails⟩ => ⟨stage, List.mem_append_left _ hstage, hfails⟩⟩
      rcases hrun : (Pipeline.run host first s).run w with
        ⟨⟨inner, f | ⟨_ | _, output, results⟩⟩, between⟩ <;> rw [hrun] at hearlier hfirst hlast
      · exact ⟨earlier, hearlier, hlast⟩
      · obtain ⟨new, hnew, htells⟩ := ih inner between
        have hcan : Pipeline.CanBind earlier := fun name t hmem => by
          by_contra hclash
          cases hfirst.clash hmem (Bool.not_eq_false _ ▸ hclash)
        refine ⟨new ++ earlier, ?_, htells.after hcan (List.subset_append_right _ _)⟩
        rw [List.append_assoc, ← hearlier]
        exact hnew
      · exact ⟨earlier, hearlier, hlast⟩

/-- The scope of a request binds the names of a request only. -/
theorem mem_reservedNames {request : Request} {name : String}
    (h : (Scope.ofRequest request).contains name = true) : name ∈ reservedNames := by
  obtain ⟨params, query, headers, body⟩ := request
  have hmem := Scope.contains_ofFields.mp h
  rw [Fields.names, List.map_append, List.mem_append] at hmem
  rcases hmem with hmem | hmem
  · exact List.mem_append_left ["body"] hmem
  · split at hmem
    · cases hmem
    · exact List.mem_append_right ["params", "query", "headers"] hmem

/-- What serves a route of a configuration without errors, and how it begins. -/
theorem exists_serve? (h : Diagnostic.areOk c.check = true) (hr : r ∈ c.routes) :
    (∀ name ∈ r.middleware, c.middleware.contains name = true) ∧
    ∃ middleware : List Pipeline, ∀ (host : Host σ) (request : Request),
      c.serve? host r request = some (Pipeline.runAfter { host with schemas := c.schemas }
        middleware r.pipeline (.ofRequest request)) ∧
      Pipeline.AllSound c.schemas (middleware.flatten ++ r.pipeline) (.ofRequest request) := by
  obtain ⟨index, hindex⟩ := mem_check_of_mem_checkRoute hr
  have hroute : ∀ d ∈ c.checkRoute index r, d.severity ≠ .error := by
    intro d hd
    simpa using List.all_eq_true.mp h d (hindex d hd)
  obtain ⟨hmissing, hrun⟩ := List.forall_mem_append.mp hroute
  have hdefined := middleware_defined hmissing
  obtain ⟨middleware, hmiddleware⟩ := exists_mapM_get? hdefined
  refine ⟨hdefined, middleware, fun host request => ⟨?_, ?_⟩⟩
  · rw [serve?, middlewareOf?, hmiddleware, Option.map_some]
  · refine ⟨{ available := reservedNames }, c.routeStages index r, ?_, hrun, ?_⟩
    · rw [routeStages, List.map_append, map_stage_middleware hmiddleware, map_stage_placed]
    · exact fun name hname => .inl (mem_reservedNames hname)

/-- A configuration without errors serves each of its routes: the middleware
is defined, and in the run that answers a request, however database and
clock behave, every schema that is looked up is registered and no name of a
stage is bound twice. -/
theorem serve_sound (h : Diagnostic.areOk c.check = true) (hr : r ∈ c.routes) :
    (∀ name ∈ r.middleware, c.middleware.contains name = true) ∧
    ∀ (host : Host σ) (request : Request), ∃ act, c.serve? host r request = some act ∧
      ∀ w : World σ, ∀ n ∈ (act.run w).2.notes, n ∈ w.notes ∨ n.IsSound c.schemas := by
  obtain ⟨hdefined, middleware, hserve⟩ := exists_serve? (σ := σ) h hr
  refine ⟨hdefined, fun host request => ?_⟩
  obtain ⟨hact, hstart⟩ := hserve host request
  refine ⟨_, hact, fun w => ?_⟩
  exact (runAfter_notes (Pipeline.soundInvariant { host with schemas := c.schemas }) hstart w).1

/-- No run of a route of a configuration without errors ends because a name is
bound twice, unless the evaluation of a stage says so. -/
theorem serve_binds (h : Diagnostic.areOk c.check = true) (hr : r ∈ c.routes) (host : Host σ)
    (request : Request) {act : StateM (World σ) RunEnd}
    (hact : c.serve? host r request = some act) {w : World σ} (hw : w.notes = []) {name : String}
    (hend : (act.run w).1.outcome = .error (.duplicateBinding name)) :
    ∃ (stage : Stage) (s : Scope) (w : World σ),
      ((Pipeline.evalStage { host with schemas := c.schemas } stage s).run.run w).1 =
        .error (.failed (.duplicateBinding name)) := by
  obtain ⟨-, middleware, hserve⟩ := exists_serve? (σ := σ) h hr
  obtain ⟨hrun, hstart⟩ := hserve host request
  cases hrun.symm.trans hact
  obtain ⟨new, hnotes, htells⟩ :=
    runAfter_notesTell { host with schemas := c.schemas } middleware r.pipeline
      (.ofRequest request) w
  rcases htells.noted hend with ⟨s, hmem, hclash⟩ | ⟨stage, -, hfails⟩
  · have hsound := (runAfter_notes (Pipeline.soundInvariant { host with schemas := c.schemas })
      hstart w).1 (.binding name s) (hnotes ▸ List.mem_append_left _ hmem)
    rw [hw] at hsound
    rcases hsound with hnil | hfree
    · cases hnil
    · exact absurd (Scope.bind_eq_duplicate_iff.mpr hclash) (hfree .null)
  · exact ⟨stage, hfails⟩

/-- A blog: posts are looked at by anyone who is known, and what is sent is
checked against a schema. -/
def blog : Config where
  routes := [{ path := "/posts", method := .post, middleware := ["session"], pipeline :=
    [⟨some "post", .validate (.get ⟨"body", "body", []⟩) (.named "Post") none
      (some (.earlyReturn (.expr (.get ⟨"errors", "errors", []⟩))))⟩] }]
  middleware := [("session", [⟨some "user", .get ⟨"headers.user", "headers", [.field "user"]⟩⟩])]
  schemas := [("Post", [("type", .str "object")])]

theorem serve_sound_blog :
    ∃ r ∈ blog.routes, Diagnostic.areOk blog.check = true ∧
      (∀ name ∈ r.middleware, blog.middleware.contains name = true) ∧
      ∀ (host : Host Unit) (request : Request), ∃ act, blog.serve? host r request = some act ∧
        ∀ w : World Unit, ∀ n ∈ (act.run w).2.notes, n ∈ w.notes ∨ n.IsSound blog.schemas := by
  have hok : Diagnostic.areOk blog.check = true := by decide
  exact ⟨_, List.mem_cons_self, hok, serve_sound hok List.mem_cons_self⟩

end Config

end Conduit
