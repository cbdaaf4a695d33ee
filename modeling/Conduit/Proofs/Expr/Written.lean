import Conduit.Proofs.Expr.Fields
import Conduit.Proofs.Expr.Reader
import Mathlib.Data.List.Forall2

/-!
# Operators as they are written

An operator over operands that can be read is written as an object with its name
over them: the operand itself, or the list of them. It is read as that operator
over what the operands are read as.
-/

namespace Conduit

namespace Reading

variable {α β : Type}

/-! ## Side by side -/

theorem fmap_done {f : α → β} {x : Reading α} {a : α} (hx : x = .done a) :
    f <$> x = .done (f a) := by
  rw [hx]
  rfl

theorem seq_done {f : Reading (α → β)} {x : Reading α} {g : α → β} {a : α} (hf : f = .done g)
    (hx : x = .done a) : f <*> x = .done (g a) := by
  rw [hf, hx]
  rfl

theorem seqLeft_done {x : Reading α} {y : Reading β} {a : α} {b : β} (hx : x = .done a)
    (hy : y = .done b) : x <* y = .done a := by
  rw [hx, hy]
  rfl

/-! ## Lists and objects -/

/-- A list is read if each of its items is, by a reader that sees nothing but
the item. -/
theorem list_eq_done {xs : List Value} {as : List α} {read : Value → Reading α}
    (h : List.Forall₂ (fun x a => read x = .done a) xs as) :
    list (.arr xs) (fun w => read w.1) = .done as := by
  have hitems : ∀ {n : Nat} (vs : List (Smaller n)) (as : List α) (start : Nat),
      List.Forall₂ (fun x a => read x = .done a) (vs.map Subtype.val) as →
      items (fun w => read w.1) start vs = .done as := by
    intro n vs
    induction vs with
    | nil =>
        intro as start h
        cases h
        rfl
    | cons v rest ih =>
        intro as start h
        cases h with
        | cons hv hrest =>
            rw [items, ih _ _ hrest, hv]
            rfl
  refine hitems _ as 0 ?_
  rw [List.map_map]
  exact (List.attach_map_subtype_val xs).symm ▸ h

/-- So is an object, field by field. -/
theorem fields_eq_done {fs : Fields Value} {gs : Fields α} {read : Value → Reading α}
    (h : List.Forall₂ (fun f g => f.1 = g.1 ∧ read f.2 = .done g.2) fs gs) :
    fields (.obj fs) (fun w => read w.1) = .done gs := by
  have hfields : ∀ {n : Nat} (es : List (Value × Smaller n)) (gs : Fields α),
      List.Forall₂ (fun e g => e.1 = .str g.1 ∧ read e.2.1 = .done g.2) es gs →
      fieldsFrom (fun w => read w.1) es = .done gs := by
    intro n es gs h
    induction h with
    | nil => rfl
    | @cons e g _ _ hfirst _ ih =>
        obtain ⟨key, v⟩ := e
        obtain ⟨rfl, hv⟩ := hfirst
        rw [fieldsFrom, ih, hv]
        rfl
  have hentries : ∀ {n : Nat} (es : List (Value × Value)) (hsize : Value.sizeValues es < n),
      List.Forall₂ (fun e g => e.1 = .str g.1 ∧ read e.2 = .done g.2) es gs →
      List.Forall₂ (fun e g => e.1 = .str g.1 ∧ read e.2.1 = .done g.2)
        (Arguments.ofEntries es hsize).entries gs := by
    intro n es hsize h
    rw [Arguments.ofEntries, List.forall₂_map_left_iff]
    rw [← List.attach_map_subtype_val es] at h
    exact List.forall₂_map_left_iff.mp h
  refine hfields _ gs (hentries _ _ (List.forall₂_map_left_iff.mpr ?_))
  exact h.imp fun f g hfg => ⟨congrArg Value.str hfg.1, hfg.2⟩

end Reading

namespace Arguments

variable {α : Type} {n : Nat} {args : Arguments n} {names : List String} {v : Smaller n}
  {read : Smaller n → Reading α} {a : α}

theorem required_done (hfind : args.find? names = some v) (hread : read v = .done a) :
    args.required names read = .done a := by
  rw [required, hfind]
  exact Reading.under_eq_done.mpr hread

theorem optional_done {absent : α} (hfind : args.find? names = some v) (hread : read v = .done a) :
    args.optional names absent read = .done a := by
  rw [optional, hfind]
  exact Reading.under_eq_done.mpr hread

end Arguments

namespace Expr

/-- One argument under the first name of the only field that there is. -/
theorem only_eq_done {α β : Type} {name : String} {others : List String} {arg : Value} {a : α}
    {read : Smaller (arg.size + 1) → Reading α} (build : α → β) (hname : name ≠ "op")
    (h : read ⟨arg, Nat.lt_succ_self _⟩ = .done a) :
    build <$> (Arguments.single name arg).required (name :: others) read <*
      (Arguments.single name arg).closed [["op"], name :: others] = .done (build a) := by
  simp [Arguments.required, Arguments.find?, Arguments.get?, Arguments.single, Arguments.closed,
    Arguments.present?, Arguments.leftover, Reading.under, Functor.map, SeqLeft.seqLeft,
    Reading.apply, hname, h]

variable {x : Value} {e : Expr} {xs : List Value} {es : List Expr}

/-- Operands are read, each on its own. -/
def AreRead (xs : List Value) (es : List Expr) : Prop :=
  List.Forall₂ (fun x e => read x = .done e) xs es

theorem readList_eq_done (h : AreRead xs es) :
    readList (fun w => read w.1) (whole (.arr xs)) = .done es :=
  Reading.list_eq_done h

theorem read_not (h : read x = .done e) : read (.obj [("$not", x)]) = .done (.not e) := by
  rw [read_eq rfl rfl rfl]
  exact Reading.under_eq_done.mpr (only_eq_done not (by decide) h)

theorem read_and (h : AreRead xs es) : read (.obj [("$and", .arr xs)]) = .done (.and es) := by
  rw [read_eq rfl rfl rfl]
  exact Reading.under_eq_done.mpr (only_eq_done and (by decide) (readList_eq_done h))

theorem read_or (h : AreRead xs es) : read (.obj [("$or", .arr xs)]) = .done (.or es) := by
  rw [read_eq rfl rfl rfl]
  exact Reading.under_eq_done.mpr (only_eq_done or (by decide) (readList_eq_done h))

theorem AreRead.negated (h : AreRead xs es) :
    AreRead (xs.map fun x => .obj [("$not", x)]) (es.map .not) :=
  List.forall₂_map_left_iff.mpr (List.forall₂_map_right_iff.mpr (h.imp fun _ _ => read_not))

/-! ## Payloads -/

variable {ps : List (Payload Expr)}

/-- Payloads are read, each on its own. -/
def ArePayloads (xs : List Value) (ps : List (Payload Expr)) : Prop :=
  List.Forall₂ (fun x p => payload x = .done p) xs ps

theorem payload_operator (hop : (Operator.ofObject? x).isSome) (h : read x = .done e) :
    payload x = .done (.expr e) := by
  have hmap : isFieldMap (whole x).1 = false := by simp [isFieldMap, whole, hop]
  have hread : read (whole x).1 = .done e := h
  rw [payload, readPayload, hmap, hread]
  rfl

theorem payload_fields {fs : Fields Value} {gs : Fields Expr}
    (hop : Operator.ofObject? (.obj fs) = none)
    (h : List.Forall₂ (fun f g => f.1 = g.1 ∧ read f.2 = .done g.2) fs gs) :
    payload (.obj fs) = .done (.fields gs) := by
  have hmap : isFieldMap (whole (.obj fs)).1 = true := by
    simp [isFieldMap, whole, hop, Value.entries?]
  rw [payload, readPayload, if_pos hmap]
  refine Reading.under_eq_done.mpr (Reading.map_eq_done.mpr ⟨gs, ?_, rfl⟩)
  exact Reading.fields_eq_done h

theorem read_merge (h : ArePayloads xs ps) :
    read (.obj [("$merge", .arr xs)]) = .done (.merge ps) := by
  rw [read_eq rfl rfl rfl]
  have hlist : Reading.list (.arr xs) (fun w => payload w.1) = .done ps :=
    Reading.list_eq_done h
  exact Reading.under_eq_done.mpr (only_eq_done merge (by decide) hlist)

theorem payload_merge (h : ArePayloads xs ps) :
    payload (.obj [("$merge", .arr xs)]) = .done (.expr (.merge ps)) :=
  payload_operator rfl (read_merge h)

end Expr

end Conduit
