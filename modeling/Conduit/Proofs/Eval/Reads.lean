import Conduit.Proofs.Eval.Related
import Conduit.Proofs.Expr.Reader
import Conduit.Proofs.Template.Escapes
import Conduit.Store
import Mathlib

/-!
# What an evaluation reads

The unbound names of an expression are found without evaluating it. If there
are none besides some names that are given, then only these names matter: in
two scopes that agree on them the expression comes to the same and asks the
database for the same, whatever else the scopes bind.

Queries are the exception. Of a query only the first name is looked at, while
its filters may read any name of the scope around it; these names have to be
known as well.
-/

namespace Conduit

namespace Scope

variable {s t : Scope}

theorem resolve_congr {p : DotPath} (h : s.get? p.head = t.get? p.head) :
    s.resolve p = t.resolve p := by
  unfold resolve
  rw [h]

end Scope

namespace Template

theorem resolvePath_congr {fields others : Fields Value} {p : DotPath}
    (h : fields.get? p.head = others.get? p.head) :
    resolvePath fields p = resolvePath others p := by
  unfold resolvePath
  cases DotPath.format p.steps with
  | error l => rfl
  | ok text =>
      dsimp only [DotPath.resolve]
      rw [h]

/-- Without tags, the text of a template depends on the values of its
placeholders only. -/
theorem output_congr {template : Template} (h : template.isPlain = true) (engine : Engine)
    (fields others : Fields Value) (values : List Value) :
    template.output engine fields values = template.output engine others values := by
  have hpieces : template.pieces.mapM (pieceText engine template.paths fields values) =
      template.pieces.mapM (pieceText engine template.paths others values) := by
    refine mapM_congr fun piece hpiece => ?_
    cases piece with
    | text cs => rfl
    | slot n => rfl
    | print source =>
        have hmem := mem_sources.mpr hpiece
        rw [List.isEmpty_iff.mp h] at hmem
        cases hmem
  rw [output, output, hpieces]

/-- A template without tags depends on the first names of its placeholders
only. -/
theorem render_congr {template : Template} {fields others : Fields Value}
    (hplain : template.isPlain = true)
    (h : ∀ p ∈ template.paths, fields.get? p.head = others.get? p.head) (engine : Engine) :
    template.render engine fields = template.render engine others := by
  have hvalues : ∀ ps : List DotPath, (∀ p ∈ ps, fields.get? p.head = others.get? p.head) →
      ps.mapM (resolvePath fields) = ps.mapM (resolvePath others) := by
    intro ps hps
    induction ps with
    | nil => rfl
    | cons p rest ih =>
        obtain ⟨hp, hrest⟩ := List.forall_mem_cons.mp hps
        rw [List.mapM_cons, List.mapM_cons, resolvePath_congr hp, ih hrest]
  unfold render
  rw [hvalues template.paths h]
  simp only [output_congr hplain engine fields others]

end Template

/-! ## Scopes that agree -/

/-- Scopes in which the bound names mean the same, looked up from the inside
outwards or in all frames flattened to one. -/
def ScopeRelation.agreeing : ScopeRelation where
  holds bound s t := ∀ name ∈ bound,
    s.get? name = t.get? name ∧ s.toFields.get? name = t.toFields.get? name
  child := by
    intro bound s t h bindings name hname
    rw [Scope.get?_child, Scope.get?_child, Scope.get?_toFields_child, Scope.get?_toFields_child]
    by_cases hown : name ∈ bindings.names
    · have hreverse := Fields.mem_names_reverse.mpr hown
      rw [Fields.get?_or_of_mem hown, Fields.get?_or_of_mem hown, Fields.get?_or_of_mem hreverse,
        Fields.get?_or_of_mem hreverse]
      exact ⟨rfl, rfl⟩
    · obtain ⟨hget, hfields⟩ := h name ((List.mem_append.mp hname).resolve_left hown)
      rw [hget, hfields]
      exact ⟨rfl, rfl⟩

namespace Expr

open Conduit.Action

variable {σ : Type} {shown : Event → Bool} {host : Host σ} {names : List String} {e : Expr}
  {s t : Scope}

/-- Whether an expression is a query. -/
def isQuery : Expr → Bool
  | .jsonPath _ _ => true
  | _ => false

/-- Of a query, that it starts from a name and that all its filters read is the
candidate and names that are bound; of a template, that it has no tags, which
could look at anything. -/
def Part.ReadsBound : Part → Prop
  | ⟨bound, .jsonPath _ segments⟩ => queryHead segments ≠ [] ∧
    ∀ f ∈ Segment.filtersAll segments, ∀ p ∈ f.paths, p.head = "@" ∨ p.head ∈ bound
  | ⟨_, .renderString template _⟩ => template.isPlain = true
  | _ => True

theorem readAlike_of_agreeing {filters : List Query.Filter}
    (h : ScopeRelation.agreeing.holds names s t)
    (hf : ∀ f ∈ filters, ∀ p ∈ f.paths, p.head = "@" ∨ p.head ∈ names) :
    Query.ReadAlike filters s t := by
  intro f hmem p hp candidate
  refine Scope.resolve_congr ?_
  have hchild := ScopeRelation.agreeing.child h [("@", candidate)]
  rcases hf f hmem p hp with hat | hname
  · exact (hchild p.head (by rw [hat]; exact List.mem_cons_self)).1
  · exact (hchild p.head (List.mem_cons_of_mem _ hname)).1

/-- A query that starts from a name sees of its scope this name and what its
filters read. -/
theorem query_alike {name : String} {rest : List (Segment Query.Filter)}
    (hname : s.toFields.get? name = t.toFields.get? name)
    (hrest : Query.ReadAlike (Segment.filtersAll rest) s t) :
    Alike shown
      (Query.run (judge s) (.step (.field name) :: rest) (.obj s.toFields) : Action σ (List Value))
      (Query.run (judge t) (.step (.field name) :: rest) (.obj t.toFields)) := by
  have hfirst : Query.selectStep (.field name) (.obj s.toFields) =
      Query.selectStep (.field name) (.obj t.toFields) := by
    show Except.ok (s.toFields.get? name).toList = Except.ok (t.toFields.get? name).toList
    rw [hname]
  refine .bind (.bind (selectStep_alike _ hfirst) fun _ => .bind (.pure _) fun _ => .pure _) ?_
  exact fun found => runFrom_alike hrest found

theorem agreeing_covers {p : Part} (hu : p.unbound = []) (hq : p.ReadsBound) :
    ScopeRelation.agreeing.Covers p := by
  obtain ⟨bound, e⟩ := p
  cases e with
  | get path =>
      intro s t h
      exact Scope.resolve_congr (h _ (mem_of_without_eq_nil hu List.mem_cons_self)).1
  | renderString template vars =>
      cases vars with
      | some p => trivial
      | none =>
          intro s t h
          refine Template.render_congr hq fun p hp => ?_
          exact (h _ (mem_of_without_eq_nil hu (List.mem_map_of_mem hp))).2
  | jsonPath text segments =>
      obtain ⟨hhead, hfilters⟩ := hq
      intro s t h σ shown
      match segments, hhead with
      | .step (.field name) :: rest, _ =>
          have hname : name ∈ bound := mem_of_without_eq_nil hu List.mem_cons_self
          exact query_alike (h name hname).2 (readAlike_of_agreeing h hfilters)
  | _ => trivial

/-- Scopes that agree on all that an expression reads are the same to it. -/
theorem eval_agree (hu : e.unbound names = []) (hq : ∀ p ∈ parts names e, p.ReadsBound)
    (hs : s.IsDistinct) (ht : t.IsDistinct) (hst : s.AgreesOn names t) :
    Alike shown (eval host e s) (eval host e t) := by
  have hagree : ScopeRelation.agreeing.holds names s t := by
    intro name hname
    rw [Scope.get?_toFields hs, Scope.get?_toFields ht]
    exact ⟨hst name hname, hst name hname⟩
  refine eval_alike e (fun p hp => agreeing_covers ?_ (hq p hp)) hagree
  rw [unbound_eq_flatMap] at hu
  exact List.flatMap_eq_nil_iff.mp hu p hp

/-! ## Expressions without queries -/

theorem readsBound_of_not_isQuery {p : Part} (h : p.expr.isQuery = false)
    (hplain : p.expr.isPlain = true) : p.ReadsBound := by
  obtain ⟨bound, e⟩ := p
  cases e with
  | jsonPath text segments => cases h
  | renderString template vars => exact hplain
  | _ => trivial

/-- An expression without queries and without tags in its templates that leaves
no name unbound besides the given ones comes to the same in all scopes that
agree on these, with the same calls of the database; nothing else that a scope
binds can be told from it. -/
theorem eval_same (hq : ∀ p ∈ parts names e, p.expr.isQuery = false)
    (hplain : ∀ p ∈ parts names e, p.expr.isPlain = true) (hu : e.unbound names = [])
    (hs : s.IsDistinct) (ht : t.IsDistinct) (hst : s.AgreesOn names t) (host : Host σ) :
    Same (eval host e s) (eval host e t) := by
  refine (eval_agree hu (fun p hp => ?_) hs ht hst).same
  exact readsBound_of_not_isQuery (hq p hp) (hplain p hp)

/-- A host that keeps documents in a store and whose clock stands still. -/
def storing : Host Store where
  database := some Store.database
  clock s := (.ok ⟨0, none⟩, s)

/-- A store without documents that numbers those it gets. -/
def emptyStore : Store := { ids := fun n => .int n }

/-- The insertion of a greeting to each member of `team`. -/
def greet : Expr :=
  .dbInsert "greetings" (.fields [("texts", .map (.get ⟨"team", "team", []⟩) "member"
    (.renderString ⟨"Hi \x7b\x7bmember.name\x7d\x7d", [⟨"member.name", "member", [.field "name"]⟩],
      [.text ['H', 'i', ' '], .slot 0]⟩ none))])

/-- A scope with a team of one, and with a `member` of its own. -/
def crew (member : Value) : Scope :=
  .ofFields [("member", member), ("team", .arr [.obj [("name", .str "Ada")]])]

theorem eval_same_greet :
    (∀ p ∈ parts ["team"] greet, p.expr.isQuery = false) ∧
      (∀ p ∈ parts ["team"] greet, p.expr.isPlain = true) ∧ greet.unbound ["team"] = [] ∧
      (crew (.int 1)).IsDistinct ∧ (crew .null).IsDistinct ∧
      (crew (.int 1)).AgreesOn ["team"] (crew .null) ∧
      Same (eval storing greet (crew (.int 1))) (eval storing greet (crew .null)) := by
  have hq : ∀ p ∈ parts ["team"] greet, p.expr.isQuery = false := by decide
  have hplain : ∀ p ∈ parts ["team"] greet, p.expr.isPlain = true := by decide
  have hu : greet.unbound ["team"] = [] := by decide
  have hs : (crew (.int 1)).IsDistinct := by decide
  have ht : (crew .null).IsDistinct := by decide
  have hst : (crew (.int 1)).AgreesOn ["team"] (crew .null) := by
    intro name hname
    obtain rfl := List.mem_singleton.mp hname
    rfl
  exact ⟨hq, hplain, hu, hs, ht, hst, eval_same hq hplain hu hs ht hst storing⟩

/-! ## Queries -/

/-- A query that starts from a known name, and in whose filters all names are
known, comes to the same in all scopes that agree on the known names. -/
theorem eval_query_same {text : String} {segments : List (Segment Query.Filter)}
    (hhead : queryHead segments ≠ []) (hu : (jsonPath text segments).unbound names = [])
    (hf : ∀ f ∈ Segment.filtersAll segments, ∀ p ∈ f.paths, p.head = "@" ∨ p.head ∈ names)
    (hs : s.IsDistinct) (ht : t.IsDistinct) (hst : s.AgreesOn names t) (host : Host σ) :
    Same (eval host (.jsonPath text segments) s) (eval host (.jsonPath text segments) t) := by
  refine (eval_agree hu (fun p hp => ?_) hs ht hst).same
  obtain rfl := List.mem_singleton.mp hp
  exact ⟨hhead, hf⟩

/-- The posts whose score is over the limit that the scope sets. -/
def overLimitSegments : List (Segment Query.Filter) :=
  [.step (.field "posts"), .filter (.compare .gt (.path ⟨"@.score", "@", [.field "score"]⟩)
    (.path ⟨"limit", "limit", []⟩))]

def overLimit : Expr := .jsonPath "posts[?(@.score > $.limit)]" overLimitSegments

/-- A scope with one post, a limit and other names. -/
def rated (limit : Int) (others : Fields Value) : Scope :=
  .ofFields ([("posts", .arr [.obj [("score", .int 5)]]), ("limit", .int limit)] ++ others)

theorem eval_query_same_overLimit :
    queryHead overLimitSegments ≠ [] ∧ overLimit.unbound ["posts", "limit"] = [] ∧
      (∀ f ∈ Segment.filtersAll overLimitSegments, ∀ p ∈ f.paths,
        p.head = "@" ∨ p.head ∈ ["posts", "limit"]) ∧
      (rated 3 [("user", .int 1)]).IsDistinct ∧ (rated 3 [("user", .int 2)]).IsDistinct ∧
      (rated 3 [("user", .int 1)]).AgreesOn ["posts", "limit"] (rated 3 [("user", .int 2)]) ∧
      Same (eval storing overLimit (rated 3 [("user", .int 1)]))
        (eval storing overLimit (rated 3 [("user", .int 2)])) := by
  have hhead : queryHead overLimitSegments ≠ [] := by decide
  have hu : overLimit.unbound ["posts", "limit"] = [] := by decide
  have hf : ∀ f ∈ Segment.filtersAll overLimitSegments, ∀ p ∈ f.paths,
      p.head = "@" ∨ p.head ∈ ["posts", "limit"] := by decide
  have hs : (rated 3 [("user", .int 1)]).IsDistinct := by decide
  have ht : (rated 3 [("user", .int 2)]).IsDistinct := by decide
  have hst : (rated 3 [("user", .int 1)]).AgreesOn ["posts", "limit"]
      (rated 3 [("user", .int 2)]) := by
    intro name hname
    rcases List.mem_pair.mp hname with rfl | rfl <;> rfl
  exact ⟨hhead, hu, hf, hs, ht, hst, eval_query_same hhead hu hf hs ht hst storing⟩

def overLimitTokens : List Query.Token :=
  [⟨.name "posts", 0, 5⟩, ⟨.mark .openBracket, 5, 1⟩, ⟨.mark .question, 6, 1⟩,
    ⟨.mark .openParen, 7, 1⟩, ⟨.mark .current, 8, 1⟩, ⟨.mark .point, 9, 1⟩,
    ⟨.name "score", 10, 5⟩, ⟨.mark .gt, 16, 1⟩, ⟨.mark .root, 18, 1⟩, ⟨.mark .point, 19, 1⟩,
    ⟨.name "limit", 20, 5⟩, ⟨.mark .closeParen, 25, 1⟩, ⟨.mark .closeBracket, 26, 1⟩]

theorem start_overLimitTokens (source : String) :
    Query.start source overLimitTokens = .ok overLimitSegments := by
  cbv

theorem read_overLimit :
    Expr.read (.obj [("$jsonPath", .str "posts[?(@.score > $.limit)]")]) = .done overLimit := by
  have hblank : "posts[?(@.score > $.limit)]".toList.all Text.isBlank = false := rfl
  have hscan : Query.scan "posts[?(@.score > $.limit)]" = .ok overLimitTokens := rfl
  have hparse : Query.parse "posts[?(@.score > $.limit)]" = .ok overLimitSegments := by
    rw [Query.parse, hblank, hscan]
    exact start_overLimitTokens _
  rw [read_eq rfl rfl rfl]
  simp [ofArguments, Arguments.required, Arguments.find?, Arguments.get?, Arguments.single,
    Arguments.closed, Arguments.present?, Arguments.leftover, readQuery, Reading.string,
    Reading.andThen, Reading.under, SeqLeft.seqLeft, Reading.apply, hparse, overLimit]

/-- A query whose only unbound names would be those of its filters has none,
and yet it comes to different values in scopes that agree on the known names:
the limit is read from the scope and it is not looked for beforehand. -/
theorem overLimit_limit_unreported :
    Expr.read (.obj [("$jsonPath", .str "posts[?(@.score > $.limit)]")]) = .done overLimit ∧
      queryHead overLimitSegments ≠ [] ∧ overLimit.unbound ["posts"] = [] ∧
      (rated 3 []).IsDistinct ∧ (rated 7 []).IsDistinct ∧
      (rated 3 []).AgreesOn ["posts"] (rated 7 []) ∧
      ((eval storing overLimit (rated 3 [])).run.run { outside := emptyStore }).1 =
        .ok (.arr [.obj [("score", .int 5)]]) ∧
      ((eval storing overLimit (rated 7 [])).run.run { outside := emptyStore }).1 =
        .ok (.arr []) := by
  refine ⟨read_overLimit, by decide, by decide, by decide, by decide, ?_, rfl, rfl⟩
  intro name hname
  obtain rfl := List.mem_singleton.mp hname
  rfl

end Expr

end Conduit
