import Conduit.Proofs.Eval.Contract
import Conduit.Proofs.Eval.Reads
import Conduit.Proofs.Expr.Written
import Conduit.Proofs.Pipeline.Course

/-!
# Collections in two parts

The elements of an array are worked on from left to right, each in a scope of
its own, so wherever an array is cut, the first part is done with before the
second one begins. To map or to filter the whole is to do so with the first
part, then, unless that stopped, with the second one in the world that the
first left behind, and to join what came of them; a fold of the second part
begins with the value of the first.
-/

namespace Conduit

namespace Action

variable {m : Type → Type} [Monad m] [LawfulMonad m]

theorem mapEach_append (act : Value → m Value) (xs ys : List Value) :
    mapEach act (xs ++ ys) =
      mapEach act xs >>= fun vs => mapEach act ys >>= fun ws => pure (vs ++ ws) := by
  induction xs with
  | nil => simp only [List.nil_append, mapEach, pure_bind, bind_pure]
  | cons x rest ih =>
      rw [List.cons_append, mapEach, mapEach, bind_assoc]
      refine bind_congr fun v => ?_
      simp only [ih, bind_assoc, pure_bind, List.cons_append]

theorem keepEach_append (act : Value → m Value) (xs ys : List Value) :
    keepEach act (xs ++ ys) =
      keepEach act xs >>= fun vs => keepEach act ys >>= fun ws => pure (vs ++ ws) := by
  induction xs with
  | nil => simp only [List.nil_append, keepEach, pure_bind, bind_pure]
  | cons x rest ih =>
      rw [List.cons_append, keepEach, keepEach, bind_assoc]
      refine bind_congr fun v => ?_
      cases v.truthy <;>
        simp only [ih, bind_assoc, pure_bind, List.cons_append, if_true, Bool.false_eq_true,
          if_false]

theorem foldEach_append (act : Value → Value → m Value) (start : Value) (xs ys : List Value) :
    foldEach act start (xs ++ ys) = foldEach act start xs >>= fun v => foldEach act v ys := by
  induction xs generalizing start with
  | nil => rw [List.nil_append, foldEach, pure_bind]
  | cons x rest ih =>
      rw [List.cons_append, foldEach, foldEach, bind_assoc]
      exact bind_congr fun v => ih v

end Action

/-! ## One after the other -/

section InTurn

variable {σ : Type}

/-- How an evaluation ends, and the world that it leaves behind, that does one
thing and then another, each of which gives an array: with the signal of the
one that stops first, or with the two arrays joined. -/
inductive InTurn (x y : Action σ Value) (w : World σ) : Except Signal Value × World σ → Prop
  | firstStops {signal : Signal} {after : World σ} (hx : x.run.run w = (.error signal, after)) :
      InTurn x y w (.error signal, after)
  | secondStops {vs : List Value} {between : World σ} {signal : Signal} {after : World σ}
      (hx : x.run.run w = (.ok (.arr vs), between))
      (hy : y.run.run between = (.error signal, after)) : InTurn x y w (.error signal, after)
  | bothDone {vs ws : List Value} {between after : World σ}
      (hx : x.run.run w = (.ok (.arr vs), between))
      (hy : y.run.run between = (.ok (.arr ws), after)) :
      InTurn x y w (.ok (.arr (vs ++ ws)), after)

/-- The values of an action, as an array. -/
def Action.toArray (act : Action σ (List Value)) : Action σ Value := do
  let vs ← act
  pure (.arr vs)

theorem Action.run_toArray (act : Action σ (List Value)) (w : World σ) :
    act.toArray.run.run w =
      ((act.run.run w).1.map .arr, (act.run.run w).2) := by
  rw [toArray, run_bind]
  rcases act.run.run w with ⟨signal | vs, after⟩ <;> rfl

theorem InTurn.of_append (x y : Action σ (List Value)) (w : World σ) :
    InTurn x.toArray y.toArray w
      ((x >>= fun vs => y >>= fun ws => pure (vs ++ ws)).toArray.run.run w) := by
  have hx := Action.run_toArray x w
  rw [Action.run_toArray, Action.run_bind]
  rcases hfirst : x.run.run w with ⟨signal | vs, between⟩ <;> rw [hfirst] at hx
  · exact .firstStops hx
  · have hy := Action.run_toArray y between
    dsimp only
    rw [Action.run_bind]
    rcases hsecond : y.run.run between with ⟨signal | ws, after⟩ <;> rw [hsecond] at hy
    · exact .secondStops hx hy
    · exact .bothDone hx hy

end InTurn

/-! ## The scope around it -/

namespace Pipeline

variable {σ : Type} {host : Host σ} {s : Scope}

/-- Expressions, evaluated one after another for what they do. -/
def unnamed (es : List Expr) : Pipeline := es.map fun e => ⟨none, e⟩

/-- Whatever a stage without a name comes to, the scope at the end is that of
what is left to run. -/
theorem scope_conclude_unnamed {e : Expr} {rest : Pipeline} (r : Except Signal Value)
    (results : List (Option String × Value)) (w : World σ)
    (hrest : ∀ results output w, ((runFrom host results output rest s).run w).1.scope = s) :
    ((conclude host results ⟨none, e⟩ rest s r).run w).1.scope = s := by
  rcases r with (f | v) | v
  · obtain ⟨_, -, -, hrun⟩ := @run_conclude_failed σ host results ⟨none, e⟩ rest s f w
    rw [hrun]
  · obtain ⟨_, -, -, hrun⟩ := @run_conclude_returned σ host results ⟨none, e⟩ rest s v w
    rw [hrun]
  · obtain ⟨after, -, -, hrun⟩ := @run_conclude_ok σ host results ⟨none, e⟩ rest s v w
    rw [hrun, bindValue]
    dsimp only
    cases previewOf host.settings v with
    | error l => rfl
    | ok preview => exact hrest _ v after

theorem scope_run_unnamed (es : List Expr) (w : World σ) :
    ((run host (unnamed es) s).run w).1.scope = s := by
  have hfrom : ∀ results output w,
      ((runFrom host results output (unnamed es) s).run w).1.scope = s := by
    induction es with
    | nil => exact fun _ _ _ => rfl
    | cons e rest ih =>
        intro results output w
        obtain ⟨started, -, -, hrun⟩ := @run_runFrom_cons σ host results output ⟨none, e⟩
          (unnamed rest) s w
        rw [unnamed, List.map_cons]
        refine (congrArg (fun ended => RunEnd.scope ended.1) hrun).trans ?_
        split
        · exact scope_conclude_unnamed _ results started ih
        · exact scope_conclude_unnamed _ results _ ih
  exact hfrom [] .null w

end Pipeline

namespace Expr

variable {σ : Type}

/-! ## Collection operators over an array in place -/

def mapOver (element : String) (body : Expr) (xs : List Value) : Expr :=
  .map (.literal (.arr xs)) element body

def filterOver (element : String) (predicate : Expr) (xs : List Value) : Expr :=
  .filter (.literal (.arr xs)) element predicate

def reduceOver (element accumulator : String) (body initial : Expr) (xs : List Value) : Expr :=
  .reduce (.literal (.arr xs)) element accumulator initial body

theorem eval_mapOver (host : Host σ) (element : String) (body : Expr) (xs : List Value)
    (s : Scope) : eval host (mapOver element body xs) s =
      (Action.mapEach (fun x => eval host body (s.child [(element, x)])) xs).toArray := by
  rw [mapOver, eval, eval, pure_bind, requireItems, pure_bind]
  rfl

theorem eval_filterOver (host : Host σ) (element : String) (predicate : Expr) (xs : List Value)
    (s : Scope) : eval host (filterOver element predicate xs) s =
      (Action.keepEach (fun x => eval host predicate (s.child [(element, x)])) xs).toArray := by
  rw [filterOver, eval, eval, pure_bind, requireItems, pure_bind]
  rfl

theorem eval_reduceOver (host : Host σ) (element accumulator : String) (body initial : Expr)
    (xs : List Value) (s : Scope) : eval host (reduceOver element accumulator body initial xs) s =
      eval host initial s >>= fun start =>
        Action.foldEach
          (fun acc x => eval host body (s.child [(element, x), (accumulator, acc)])) start xs := by
  rw [reduceOver, eval, eval, pure_bind, requireItems, pure_bind]

theorem eval_reduceOver_append (host : Host σ) (element accumulator : String) (body initial : Expr)
    (xs ys : List Value) (s : Scope) :
    eval host (reduceOver element accumulator body initial (xs ++ ys)) s =
      eval host (reduceOver element accumulator body initial xs) s >>= fun v =>
        eval host (reduceOver element accumulator body (.literal v) ys) s := by
  rw [eval_reduceOver, eval_reduceOver, bind_assoc]
  refine bind_congr fun start => ?_
  rw [Action.foldEach_append]
  refine bind_congr fun v => ?_
  rw [eval_reduceOver, eval, pure_bind]

/-! ## As they are written -/

section Written

variable {element accumulator : String} {b start : Value} {body initial : Expr}

def mapText (element : String) (b : Value) (xs : List Value) : Value :=
  .obj [("$map", .obj [("items", .arr xs), ("as", .str element), ("body", b)])]

def filterText (element : String) (b : Value) (xs : List Value) : Value :=
  .obj [("$filter", .obj [("items", .arr xs), ("as", .str element), ("predicate", b)])]

def reduceText (element accumulator : String) (b start : Value) (xs : List Value) : Value :=
  .obj [("$reduce", .obj [("items", .arr xs), ("as", .str element), ("acc", .str accumulator),
    ("initial", start), ("body", b)])]

theorem read_wrapped (v : Value) : read (.obj [("$literal", v)]) = .done (.literal v) := by
  rw [read_eq rfl rfl rfl]
  refine Reading.under_eq_done.mpr (Reading.seqLeft_done (Reading.fmap_done ?_) rfl)
  exact Arguments.optional_done rfl rfl

theorem read_items (xs : List Value) : read (.arr xs) = .done (.literal (.arr xs)) :=
  read_literal rfl

theorem read_mapText (h : read b = .done body) (xs : List Value) :
    read (mapText element b xs) = .done (mapOver element body xs) := by
  rw [mapText, read_eq rfl rfl rfl]
  refine Reading.under_eq_done.mpr (Reading.seqLeft_done (Reading.seq_done (Reading.seq_done
    (Reading.fmap_done ?_) ?_) ?_) rfl)
  · exact Arguments.required_done rfl (read_items xs)
  · exact Arguments.optional_done rfl rfl
  · exact Arguments.required_done rfl h

theorem read_filterText (h : read b = .done body) (xs : List Value) :
    read (filterText element b xs) = .done (filterOver element body xs) := by
  rw [filterText, read_eq rfl rfl rfl]
  refine Reading.under_eq_done.mpr (Reading.seqLeft_done (Reading.seq_done (Reading.seq_done
    (Reading.fmap_done ?_) ?_) ?_) rfl)
  · exact Arguments.required_done rfl (read_items xs)
  · exact Arguments.optional_done rfl rfl
  · exact Arguments.required_done rfl h

theorem read_reduceText (hne : element ≠ accumulator) (h : read b = .done body)
    (hstart : read start = .done initial) (xs : List Value) :
    read (reduceText element accumulator b start xs) =
      .done (reduceOver element accumulator body initial xs) := by
  rw [reduceText, read_eq rfl rfl rfl]
  refine Reading.under_eq_done.mpr (Reading.andThen_eq_done.mpr ⟨_, Reading.seqLeft_done
    (Reading.seq_done (Reading.seq_done (Reading.seq_done (Reading.seq_done
      (Reading.fmap_done ?_) ?_) ?_) ?_) ?_) rfl, if_neg hne⟩)
  · exact Arguments.required_done rfl (read_items xs)
  · exact Arguments.optional_done rfl rfl
  · exact Arguments.optional_done rfl rfl
  · exact Arguments.required_done rfl hstart
  · exact Arguments.required_done rfl h

end Written

/-! ## Where the array is cut -/

/-- Collection operators over an array that is cut in two. To map or to filter
the whole comes to the same end, in the same world, as to do so with the first
part and then, unless that stopped, with the second one, the two results joined;
to fold the whole is to fold the second part from the value of the first. The
scope around them is afterwards what it was, be it the whole that is evaluated
or the parts. The operators are read from such arrays as they are written. -/
theorem eval_collections_append (element accumulator : String) (body initial : Expr)
    (xs ys : List Value) :
    (∀ {σ : Type} (host : Host σ) (s : Scope),
      (∀ w, InTurn (eval host (mapOver element body xs) s) (eval host (mapOver element body ys) s)
          w ((eval host (mapOver element body (xs ++ ys)) s).run.run w)) ∧
        (∀ w, InTurn (eval host (filterOver element body xs) s)
          (eval host (filterOver element body ys) s)
          w ((eval host (filterOver element body (xs ++ ys)) s).run.run w)) ∧
        (eval host (reduceOver element accumulator body initial (xs ++ ys)) s =
          eval host (reduceOver element accumulator body initial xs) s >>= fun v =>
            eval host (reduceOver element accumulator body (.literal v) ys) s) ∧
        ∀ (es : List Expr) (w : World σ),
          ((Pipeline.run host (Pipeline.unnamed es) s).run w).1.scope = s) ∧
      ∀ b start : Value, read b = .done body → read start = .done initial →
        ∀ zs : List Value,
          read (mapText element b zs) = .done (mapOver element body zs) ∧
            read (filterText element b zs) = .done (filterOver element body zs) ∧
            (element ≠ accumulator →
              read (reduceText element accumulator b start zs) =
                  .done (reduceOver element accumulator body initial zs) ∧
                ∀ v : Value, read (reduceText element accumulator b (.obj [("$literal", v)]) zs) =
                  .done (reduceOver element accumulator body (.literal v) zs)) := by
  refine ⟨fun host s => ⟨fun w => ?_, fun w => ?_, ?_, fun es w => ?_⟩,
    fun b start hb hstart zs => ⟨read_mapText hb zs, read_filterText hb zs, fun hne =>
      ⟨read_reduceText hne hb hstart zs, fun v => read_reduceText hne hb (read_wrapped v) zs⟩⟩⟩
  · rw [eval_mapOver, eval_mapOver, eval_mapOver, Action.mapEach_append]
    exact .of_append _ _ w
  · rw [eval_filterOver, eval_filterOver, eval_filterOver, Action.keepEach_append]
    exact .of_append _ _ w
  · exact eval_reduceOver_append host element accumulator body initial xs ys s
  · exact Pipeline.scope_run_unnamed es w

/-- The insertion of an element. -/
def keepItem : Value :=
  .obj [("$dbInsert", .obj [("collection", .str "notes"),
    ("document", .obj [("text", .obj [("$get", .str "item")])])])]

theorem eval_collections_append_kept :
    ∃ body : Expr,
      read keepItem = .done body ∧ read .null = .done (.literal .null) ∧ "item" ≠ "kept" ∧
      read (mapText "item" keepItem [.str "a", .str "b"]) =
        .done (mapOver "item" body [.str "a", .str "b"]) ∧
      read (reduceText "item" "kept" keepItem .null [.str "a", .str "b"]) =
        .done (reduceOver "item" "kept" body (.literal .null) [.str "a", .str "b"]) ∧
      InTurn (eval storing (mapOver "item" body [.str "a"]) (.ofFields []))
        (eval storing (mapOver "item" body [.str "b"]) (.ofFields [])) { outside := emptyStore }
        ((eval storing (mapOver "item" body [.str "a", .str "b"]) (.ofFields [])).run.run
          { outside := emptyStore }) ∧
      ((eval storing (mapOver "item" body [.str "a", .str "b"]) (.ofFields [])).run.run
          { outside := emptyStore }).2.calls =
        [.insert "notes" [("text", .str "a")], .insert "notes" [("text", .str "b")]] := by
  have hitem : DotPath.parse "item" = .ok ⟨"item", "item", []⟩ := by cbv
  have hbody : read keepItem =
      .done (.dbInsert "notes" (.fields [("text", .get ⟨"item", "item", []⟩)])) := by
    rw [keepItem, read_eq rfl rfl rfl]
    refine Reading.under_eq_done.mpr (Reading.seqLeft_done (Reading.seq_done (Reading.fmap_done
      (Arguments.required_done rfl rfl)) (Arguments.required_done rfl ?_)) rfl)
    exact payload_fields rfl (.cons ⟨rfl, read_get hitem⟩ .nil)
  have hstart : read .null = .done (.literal .null) := read_literal rfl
  have hne : "item" ≠ "kept" := by decide
  obtain ⟨hrun, hread⟩ := eval_collections_append "item" "kept" _ (.literal .null) [.str "a"]
    [.str "b"]
  obtain ⟨hmap, -, hreduce⟩ := hread keepItem .null hbody hstart [.str "a", .str "b"]
  exact ⟨_, hbody, hstart, hne, hmap, (hreduce hne).1, (hrun storing _).1 _, rfl⟩

end Expr

end Conduit
