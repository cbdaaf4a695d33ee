import Conduit.Proofs.Eval.Contract
import Conduit.Proofs.Expr.Written
import Conduit.Proofs.Fields

/-!
# Merges inside merges

A merge writes the objects of its operands over each other, from left to right,
and finds out whether an operand is an object before it evaluates the next one.
To merge some neighbours first, in a merge of their own, evaluates the same
operands in the same order, and writing objects over each other is associative.
Only an operand that is no object shows the difference: the failure names its
position, which is counted in the merge that it stands in.
-/

namespace Conduit

namespace Expr

/-- An operand of a merge is no object. -/
def notAnObject (position : Nat) (kind : Kind) : Failure :=
  .mismatch (.object ("$merge operand " ++ toString position) kind)

section Ends

variable {α β γ δ σ : Type} {R R' : α → β → Prop} {S : γ → δ → Prop}

/-- How two merges end: with related results, with the same signal, or at an
operand that is no object, whatever its position. -/
inductive EndsLike (R : α → β → Prop) : Except Signal α → Except Signal β → Prop
  | ok {a : α} {b : β} (h : R a b) : EndsLike R (.ok a) (.ok b)
  | signal (signal : Signal) : EndsLike R (.error signal) (.error signal)
  | notAnObject (i j : Nat) (kind : Kind) :
      EndsLike R (.error (.failed (notAnObject i kind))) (.error (.failed (notAnObject j kind)))

theorem EndsLike.imp {r : Except Signal α} {r' : Except Signal β} (hR : ∀ a b, R a b → R' a b)
    (h : EndsLike R r r') : EndsLike R' r r' := by
  cases h with
  | ok h => exact .ok (hR _ _ h)
  | signal signal => exact .signal signal
  | notAnObject i j kind => exact .notAnObject i j kind

/-- From every world, two actions leave the same world behind and end alike. -/
def RunLike (R : α → β → Prop) (x : Action σ α) (y : Action σ β) : Prop :=
  ∀ w, (x.run.run w).2 = (y.run.run w).2 ∧ EndsLike R (x.run.run w).1 (y.run.run w).1

namespace RunLike

theorem pure {a : α} {b : β} (h : R a b) : RunLike (σ := σ) R (pure a) (pure b) :=
  fun _ => ⟨rfl, .ok h⟩

theorem refl (x : Action σ α) : RunLike Eq x x := by
  refine fun w => ⟨rfl, ?_⟩
  cases (x.run.run w).1 with
  | error signal => exact .signal signal
  | ok a => exact .ok rfl

theorem bind {x : Action σ α} {y : Action σ β} {f : α → Action σ γ} {g : β → Action σ δ}
    (hxy : RunLike R x y) (hfg : ∀ a b, R a b → RunLike S (f a) (g b)) :
    RunLike S (x >>= f) (y >>= g) := by
  intro w
  obtain ⟨hworld, hend⟩ := hxy w
  rw [Action.run_bind, Action.run_bind]
  rcases hx : x.run.run w with ⟨r, after⟩
  rcases hy : y.run.run w with ⟨r', after'⟩
  rw [hx, hy] at hworld hend
  obtain rfl : after = after' := hworld
  cases hend with
  | ok h => exact hfg _ _ h after
  | signal signal => exact ⟨rfl, .signal signal⟩
  | notAnObject i j kind => exact ⟨rfl, .notAnObject i j kind⟩

theorem requireObject (i j : Nat) (v : Value) :
    RunLike Eq (requireObject (σ := σ) ("$merge operand " ++ toString i) v)
      (requireObject ("$merge operand " ++ toString j) v) := by
  cases v with
  | obj fields => exact refl _
  | _ => exact fun w => ⟨rfl, .notAnObject i j _⟩

end RunLike

end Ends

section Merge

variable {σ : Type} {host : Host σ} {s : Scope}

/-- Operands are merged over two lots of fields that stand to each other as
before, whatever the positions are that they begin at. -/
theorem evalMerge_runLike {R : Fields Value → Fields Value → Prop}
    (hstep : ∀ {a b} fields, R a b → R (a.overlay fields) (b.overlay fields))
    (ps : List (Payload Expr)) (i j : Nat) {a b : Fields Value} (h : R a b) :
    RunLike R (evalMerge host i a ps s) (evalMerge host j b ps s) := by
  induction ps generalizing i j a b with
  | nil => exact .pure h
  | cons p rest ih =>
      rw [evalMerge, evalMerge]
      refine .bind (.refl _) fun v v' hv => ?_
      subst hv
      refine .bind (.requireObject i j v) fun fields fields' hfields => ?_
      subst hfields
      exact ih _ _ (hstep fields h)

theorem evalMerge_append (ps qs : List (Payload Expr)) (i : Nat) (merged : Fields Value) :
    evalMerge host i merged (ps ++ qs) s =
      evalMerge host i merged ps s >>= fun fields =>
        evalMerge host (i + ps.length) fields qs s := by
  induction ps generalizing i merged with
  | nil => rw [List.nil_append, evalMerge, pure_bind, List.length_nil, Nat.add_zero]
  | cons p rest ih =>
      rw [List.cons_append, evalMerge, evalMerge, bind_assoc]
      refine bind_congr fun v => ?_
      rw [bind_assoc]
      refine bind_congr fun fields => ?_
      rw [ih, List.length_cons, Nat.add_assoc, Nat.add_comm 1]

/-- Operands that are merged on their own, and then as one operand. -/
theorem evalMerge_nested (run after : List (Payload Expr)) (i : Nat) (merged : Fields Value) :
    evalMerge host i merged (.expr (.merge run) :: after) s =
      evalMerge host 0 [] run s >>= fun fields =>
        evalMerge host (i + 1) (merged.overlay fields) after s := by
  rw [evalMerge, evalPayload, eval, bind_assoc]
  refine bind_congr fun fields => ?_
  rw [pure_bind, requireObject, pure_bind]

/-- To merge operands over some fields is to merge them on their own and to write
the result over those fields. -/
theorem evalMerge_overlay (run : List (Payload Expr)) (i : Nat) (base : Fields Value) :
    RunLike (fun a b => a = base.overlay b) (evalMerge host i base run s)
      (evalMerge host 0 [] run s) := by
  -- The fields that are merged so far give each name once.
  have hinvariant : RunLike (fun a b => a = base.overlay b ∧ b.names.Nodup)
      (evalMerge host i base run s) (evalMerge host 0 [] run s) := by
    refine evalMerge_runLike (fun fields h => ?_) run i 0 ⟨rfl, List.nodup_nil⟩
    obtain ⟨rfl, hnames⟩ := h
    exact ⟨Fields.overlay_assoc base hnames, Fields.nodup_overlay hnames⟩
  exact fun w => ⟨(hinvariant w).1, (hinvariant w).2.imp fun _ _ h => h.1⟩

/-- Neighbours in a merge, and the same neighbours in a merge of their own. -/
theorem eval_merge_runLike (before run after : List (Payload Expr)) :
    RunLike Eq (eval host (.merge (before ++ run ++ after)) s)
      (eval host (.merge (before ++ .expr (.merge run) :: after)) s) := by
  rw [eval, eval, evalMerge_append, evalMerge_append, evalMerge_append, bind_assoc, bind_assoc,
    bind_assoc]
  refine .bind (.refl _) fun base base' hbase => ?_
  subst hbase
  rw [evalMerge_nested, bind_assoc]
  refine .bind (evalMerge_overlay run _ base) fun merged fields hmerged => ?_
  refine .bind (evalMerge_runLike (fun _ h => congrArg (Fields.overlay · _) h) after _ _ hmerged) ?_
  exact fun a b h => .pure (congrArg Value.obj h)

end Merge

/-- A merge, and the merge with some neighbours in a merge of their own: from
every world they leave the same world behind, and they end in the same object,
key for key in the same order, in the same signal, or both at an operand that is
no object. Where the operands are read from values, the two are read from these. -/
theorem eval_merge_nested (before run after : List (Payload Expr)) :
    (∀ {σ : Type} (host : Host σ) (s : Scope),
      RunLike Eq (eval host (.merge (before ++ run ++ after)) s)
        (eval host (.merge (before ++ .expr (.merge run) :: after)) s)) ∧
      ∀ xs ys zs : List Value,
        ArePayloads xs before → ArePayloads ys run → ArePayloads zs after →
        read (.obj [("$merge", .arr (xs ++ ys ++ zs))]) =
            .done (.merge (before ++ run ++ after)) ∧
          read (.obj [("$merge", .arr (xs ++ .obj [("$merge", .arr ys)] :: zs))]) =
            .done (.merge (before ++ .expr (.merge run) :: after)) := by
  refine ⟨fun host s => eval_merge_runLike before run after, fun xs ys zs hx hy hz => ?_⟩
  have hnested : ArePayloads (xs ++ .obj [("$merge", .arr ys)] :: zs)
      (before ++ .expr (.merge run) :: after) :=
    List.rel_append hx (.cons (payload_merge hy) hz)
  exact ⟨read_merge (List.rel_append (List.rel_append hx hy) hz), read_merge hnested⟩

/-- Fields in place, an object from the scope, a field whose value is in the
scope, and fields that are given before. -/
def defaults : List Value := [.obj [("a", .int 1), ("b", .int 1)]]

def changes : List Value :=
  [.obj [("$get", .str "extra")], .obj [("b", .obj [("$get", .str "n")])]]

def reset : List Value := [.obj [("c", .null), ("a", .int 3)]]

theorem eval_merge_nested_changes :
    ∃ before run after : List (Payload Expr),
      ArePayloads defaults before ∧ ArePayloads changes run ∧ ArePayloads reset after ∧
      read (.obj [("$merge", .arr (defaults ++ .obj [("$merge", .arr changes)] :: reset))]) =
        .done (.merge (before ++ .expr (.merge run) :: after)) ∧
      ∀ (host : Host Unit) (w : World Unit) (s : Scope),
        s = .ofFields [("extra", .obj [("c", .int 3), ("a", .int 2)]), ("n", .int 9)] →
        ((eval host (.merge (before ++ .expr (.merge run) :: after)) s).run.run w).1 =
            .ok (.obj [("a", .int 3), ("b", .int 9), ("c", .null)]) ∧
          RunLike Eq (eval host (.merge (before ++ run ++ after)) s)
            (eval host (.merge (before ++ .expr (.merge run) :: after)) s) := by
  have hextra : DotPath.parse "extra" = .ok ⟨"extra", "extra", []⟩ := by cbv
  have hn : DotPath.parse "n" = .ok ⟨"n", "n", []⟩ := by cbv
  have hdefaults : ArePayloads defaults
      [.fields [("a", .literal (.int 1)), ("b", .literal (.int 1))]] :=
    .cons (payload_fields rfl
      (.cons ⟨rfl, read_literal rfl⟩ (.cons ⟨rfl, read_literal rfl⟩ .nil))) .nil
  have hchanges : ArePayloads changes
      [.expr (.get ⟨"extra", "extra", []⟩), .fields [("b", .get ⟨"n", "n", []⟩)]] :=
    .cons (payload_operator rfl (read_get hextra))
      (.cons (payload_fields rfl (.cons ⟨rfl, read_get hn⟩ .nil)) .nil)
  have hreset : ArePayloads reset
      [.fields [("c", .literal .null), ("a", .literal (.int 3))]] :=
    .cons (payload_fields rfl
      (.cons ⟨rfl, read_literal rfl⟩ (.cons ⟨rfl, read_literal rfl⟩ .nil))) .nil
  obtain ⟨hsame, hwritten⟩ := eval_merge_nested _ _ _
  refine ⟨_, _, _, hdefaults, hchanges, hreset,
    (hwritten defaults changes reset hdefaults hchanges hreset).2, fun host w s hs => ?_⟩
  subst hs
  exact ⟨rfl, hsame host _⟩

end Expr

end Conduit
