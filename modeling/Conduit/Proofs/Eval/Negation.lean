import Conduit.Eval
import Conduit.Proofs.Expr.Written

/-!
# Connectives under a negation

A conjunction stops at its first falsy operand and a disjunction at its first
truthy one, with that operand's own value; a negation asks for nothing but
whether a value is truthy. So a negated conjunction does what the disjunction of
the negated operands does, action by action, and a negated disjunction what the
conjunction of the negated operands does.
-/

namespace Conduit

@[simp] theorem Value.truthy_bool (b : Bool) : (Value.bool b).truthy = b := rfl

namespace Action

variable {m : Type → Type} [Monad m] [LawfulMonad m]

/-- What a negation makes of its operand. -/
def negated (act : m Value) : m Value := do
  let v ← act
  pure (.bool !v.truthy)

theorem negated_conjoin (acts : List (m Value)) (last : Value) :
    negated (conjoin last acts) = disjoin (.bool !last.truthy) (acts.map negated) := by
  induction acts generalizing last with
  | nil => simp [negated, conjoin, disjoin]
  | cons act rest ih =>
      calc negated (conjoin last (act :: rest))
          = act >>= fun v => negated (if v.truthy then conjoin v rest else pure v) := by
            simp only [negated, conjoin, bind_assoc]
        _ = act >>= fun v => if (Value.bool !v.truthy).truthy then pure (.bool !v.truthy)
              else disjoin (.bool !v.truthy) (rest.map negated) := by
            refine bind_congr fun v => ?_
            cases hv : v.truthy with
            | true => simp [ih, hv]
            | false => simp [negated, hv]
        _ = disjoin (.bool !last.truthy) (List.map negated (act :: rest)) := by
            simp only [List.map_cons, disjoin, negated, bind_assoc, pure_bind]

theorem negated_disjoin (acts : List (m Value)) (last : Value) :
    negated (disjoin last acts) = conjoin (.bool !last.truthy) (acts.map negated) := by
  induction acts generalizing last with
  | nil => simp [negated, conjoin, disjoin]
  | cons act rest ih =>
      calc negated (disjoin last (act :: rest))
          = act >>= fun v => negated (if v.truthy then pure v else disjoin v rest) := by
            simp only [negated, disjoin, bind_assoc]
        _ = act >>= fun v => if (Value.bool !v.truthy).truthy then
              conjoin (.bool !v.truthy) (rest.map negated) else pure (.bool !v.truthy) := by
            refine bind_congr fun v => ?_
            cases hv : v.truthy with
            | true => simp [negated, hv]
            | false => simp [ih, hv]
        _ = conjoin (.bool !last.truthy) (List.map negated (act :: rest)) := by
            simp only [List.map_cons, conjoin, negated, bind_assoc, pure_bind]

end Action

namespace Expr

variable {σ : Type}

theorem eval_not (host : Host σ) (e : Expr) (s : Scope) :
    eval host (.not e) s = Action.negated (eval host e s) := by
  rw [eval]
  rfl

theorem evalAll_not (host : Host σ) (es : List Expr) (s : Scope) :
    evalAll host (es.map .not) s = (evalAll host es s).map Action.negated := by
  induction es with
  | nil => rfl
  | cons e rest ih => rw [List.map_cons, evalAll, evalAll, List.map_cons, ih, eval_not]

/-- A negated conjunction and the disjunction of the negated operands are the
same action, and so are a negated disjunction and the conjunction of the negated
operands: from every world they come to the same end, after the same calls. Where
the operands are read from values, the four expressions are read from these. -/
theorem eval_deMorgan (es : List Expr) :
    (∀ {σ : Type} (host : Host σ) (s : Scope),
      eval host (.not (.and es)) s = eval host (.or (es.map .not)) s ∧
        eval host (.not (.or es)) s = eval host (.and (es.map .not)) s) ∧
      ∀ xs : List Value, AreRead xs es →
        read (.obj [("$not", .obj [("$and", .arr xs)])]) = .done (.not (.and es)) ∧
          read (.obj [("$or", .arr (xs.map fun x => .obj [("$not", x)]))]) =
            .done (.or (es.map .not)) ∧
          read (.obj [("$not", .obj [("$or", .arr xs)])]) = .done (.not (.or es)) ∧
          read (.obj [("$and", .arr (xs.map fun x => .obj [("$not", x)]))]) =
            .done (.and (es.map .not)) := by
  refine ⟨fun host s => ⟨?_, ?_⟩, fun xs h => ?_⟩
  · rw [eval_not, eval, eval, evalAll_not, Action.negated_conjoin]
    rfl
  · rw [eval_not, eval, eval, evalAll_not, Action.negated_disjoin]
    rfl
  · exact ⟨read_not (read_and h), read_or h.negated, read_not (read_or h), read_and h.negated⟩

/-- A name that is bound, an empty array, which decides, and a name that is not
bound. -/
def guards : List Value :=
  [.obj [("$get", .str "ready")], .arr [], .obj [("$get", .str "missing")]]

def guardsRead : List Expr :=
  [.get ⟨"ready", "ready", []⟩, .literal (.arr []), .get ⟨"missing", "missing", []⟩]

theorem eval_deMorgan_guards :
    AreRead guards guardsRead ∧
      read (.obj [("$or", .arr (guards.map fun x => .obj [("$not", x)]))]) =
        .done (.or (guardsRead.map .not)) ∧
      ∀ (host : Host Unit) (w : World Unit),
        (eval host (.or (guardsRead.map .not)) (.ofFields [("ready", .bool true)])).run.run w =
          (eval host (.not (.and guardsRead)) (.ofFields [("ready", .bool true)])).run.run w ∧
        ((eval host (.not (.and guardsRead)) (.ofFields [("ready", .bool true)])).run.run w).1 =
          .ok (.bool true) := by
  have hready : DotPath.parse "ready" = .ok ⟨"ready", "ready", []⟩ := by cbv
  have hmissing : DotPath.parse "missing" = .ok ⟨"missing", "missing", []⟩ := by cbv
  have hread : AreRead guards guardsRead :=
    .cons (read_get hready) (.cons (read_literal rfl) (.cons (read_get hmissing) .nil))
  obtain ⟨hsame, hwritten⟩ := eval_deMorgan guardsRead
  refine ⟨hread, (hwritten guards hread).2.1, fun host w => ⟨?_, rfl⟩⟩
  rw [(hsame host _).1]

end Expr

end Conduit
