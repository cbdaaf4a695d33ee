import Conduit.Proofs.Expr.Reader

/-!
# The operator that an object is read as

The key of an operator object names its operator. But named arguments may
have a field `op` of their own, and that has the last word over the key. So
an operator object is read as the operator of its key exactly if there is no
such field or the field has the same name. It is never read as anything that
neither of the two names.

The field is looked for in one place only, whatever the shape that the
arguments were given in: among the named arguments. An operator that takes
its operand as it is does not look into it.
-/

namespace Conduit

/-! ## Arguments by name -/

namespace Arguments

variable {n : Nat} {name : String} {es : List (Value × Value)}

/-- The keys and values of arguments, their bound left aside. -/
def fields (args : Arguments n) : List (Value × Value) := args.entries.map fun e => (e.1, e.2.1)

theorem val_get? (args : Arguments n) :
    (args.get? name).map Subtype.val = lookup name args.fields := by
  obtain ⟨entries⟩ := args
  unfold get? fields
  induction entries with
  | nil => rfl
  | cons e rest ih =>
      obtain ⟨key, v⟩ := e
      rw [List.find?_cons, List.map_cons]
      cases key with
      | str s =>
          rw [lookup]
          by_cases hs : s = name
          · simp [hs]
          · rw [if_neg hs, ← ih]
            simp [beq_eq_false_iff_ne.mpr hs]
      | _ => exact ih

theorem fields_ofEntries (h : Value.sizeValues es < n) : (ofEntries es h).fields = es := by
  unfold ofEntries fields
  rw [List.map_map]
  exact List.attach_map_subtype_val es

/-- Entries that are left out do not matter for a name that is none of their
keys. -/
theorem lookup_filter {keep : Value × Smaller n → Bool} (h : ∀ v, keep (.str name, v) = true)
    (entries : List (Value × Smaller n)) :
    lookup name (fields ⟨entries.filter keep⟩) = lookup name (fields ⟨entries⟩) := by
  unfold fields
  induction entries with
  | nil => rfl
  | cons e rest ih =>
      obtain ⟨key, v⟩ := e
      rw [List.filter_cons]
      split
      · rw [List.map_cons, List.map_cons]
        cases key with
        | str s => rw [lookup, lookup, ih]
        | _ => exact ih
      · next hkeep =>
          rw [ih, List.map_cons]
          cases key with
          | str s =>
              have hs : s ≠ name := by
                rintro rfl
                exact hkeep (h v)
              rw [lookup, if_neg hs]
          | _ => rfl

end Arguments

namespace Operator

open Arguments

/-- The field `op` among named arguments. -/
def tagIn? (op : Operator) (arg : Value) : Option Value :=
  match op.shape with
  | .operand _ => none
  | .nothing => none
  | _ => arg.entries?.bind (lookup "op")

/-- What an operator object says its operator is. -/
def tag (op : Operator) (arg : Value) : Value := (op.tagIn? arg).getD (.str op.name)

variable {op : Operator} {arg : Value}

theorem ofName?_name (op : Operator) : ofName? op.name = some op := by
  cases op with
  | compare c => cases c <;> decide
  | variadic o => cases o <;> decide
  | dyadic o => cases o <;> decide
  | _ => decide

theorem name_inj {op op' : Operator} : op.name = op'.name ↔ op = op' := by
  refine ⟨fun h => ?_, congrArg name⟩
  have hsome := ofName?_name op
  rw [h, ofName?_name] at hsome
  exact (Option.some.inj hsome).symm

/-- No operator has its operand under the name `op`. -/
theorem ne_op_of_shape {name : String}
    (h : op.shape = .operand name ∨ op.shape = .text name ∨ op.shape = .list name) :
    name ≠ "op" := by
  rintro rfl
  cases op <;> simp [shape] at h

theorem fields_named {args : Arguments (arg.size + 1)} (h : named op arg = .ok args) :
    arg.entries? = some args.fields := by
  unfold named at h
  split at h
  · next hes _ =>
      cases h
      rw [fields_ofEntries, hes]
  · cases h

theorem lookup_operandPair {n : Nat} {es : List (Value × Value)} {h : Value.sizeValues es + 1 < n}
    {args : Arguments n} (hargs : operandPair es h = some args) :
    lookup "op" args.fields = lookup "op" es := by
  unfold operandPair at hargs
  split at hargs
  · cases hargs
  · split at hargs
    · cases hargs
    · cases hargs
      split
      · rw [lookup_filter (by simp)]
        exact congrArg (lookup "op") (fields_ofEntries (Nat.lt_of_succ_lt h))
      · show lookup "op" (fields ⟨List.filter _ _⟩) = _
        rw [lookup_filter (by simp)]
        exact congrArg (lookup "op") (fields_ofEntries (Nat.lt_of_succ_lt h))

/-- Arguments of any shape have a field `op` only if they were named. -/
theorem lookup_of_ofShape {args : Arguments (arg.size + 1)} (h : ofShape op arg = .ok args) :
    lookup "op" args.fields = op.tagIn? arg := by
  have hsingle : ∀ {name : String} {n : Nat} {v : Smaller n}, name ≠ "op" →
      lookup "op" (fields ⟨[(.str name, v)]⟩) = none := fun hname => if_neg hname
  have hnamed : ∀ {args}, named op arg = .ok args →
      lookup "op" args.fields = arg.entries?.bind (lookup "op") := by
    intro args hargs
    rw [fields_named hargs]
    rfl
  unfold ofShape at h
  unfold tagIn?
  cases hs : op.shape with
  | operand name =>
      rw [hs] at h
      cases h
      exact hsingle (ne_op_of_shape (.inl hs))
  | named =>
      rw [hs] at h
      exact hnamed h
  | text name =>
      rw [hs] at h
      dsimp only at h
      split at h
      · cases h
        exact hsingle (ne_op_of_shape (.inr (.inl hs)))
      · exact hnamed h
  | list name =>
      rw [hs] at h
      dsimp only at h
      split at h
      · cases h
        exact hsingle (ne_op_of_shape (.inr (.inr hs)))
      · exact hnamed h
  | pair =>
      rw [hs] at h
      dsimp only at h
      split at h
      · cases h
        rfl
      · cases h
      · exact hnamed h
  | operands =>
      rw [hs] at h
      dsimp only at h
      split at h
      · cases h
        rfl
      · split at h
        · next hes _ =>
            rw [hes]
            split at h
            · next hpair =>
                cases h
                exact lookup_operandPair hpair
            · cases h
              rw [fields_ofEntries]
              rfl
        · cases h
  | nothing =>
      rw [hs] at h
      dsimp only at h
      split at h
      · cases h
        rfl
      · cases h
        rfl
      · cases h

end Operator

namespace Expr

open Reading

variable {n : Nat} {op : Operator} {arg : Value}

theorem readQuery_operator (v : Smaller n) :
    Yields (fun e => e.operator = .jsonPath) (readQuery v) := by
  refine .andThen .any fun s _ => ?_
  split
  · exact .done rfl
  · exact .refused
  · exact .refused

theorem foldOf_operator (items : Expr) (element accumulator : String) (initial body : Expr) :
    Yields (fun e => e.operator = .reduce) (foldOf items element accumulator initial body) := by
  unfold foldOf
  split
  · exact .refused
  · exact .done rfl

/-- The arguments of an operator are read into an expression of that operator. -/
theorem ofArguments_operator (op : Operator) (args : Arguments n)
    (read : Smaller n → Reading Expr) :
    Yields (fun e => e.operator = op) (ofArguments op args read) := by
  -- The cases differ in how many arguments are put side by side.
  cases op with
  | jsonPath => exact .seqLeft (.required readQuery_operator)
  | reduce => exact .andThen .any fun _ _ => foldOf_operator _ _ _ _ _
  | now => exact .fmap .any fun _ _ => rfl
  | literal | get | merge | present | earlyReturn | and | or | not | variadic _ | dyadic _ =>
      exact .seqLeft (.fmap .any fun _ _ => rfl)
  | dbInsert | dbDelete | renderString | compare _ =>
      exact .seqLeft (.seq (.fmap .any fun _ _ _ _ => rfl) .any)
  | branch | switch | map | filter | dbQuery | dbUpdate =>
      exact .seqLeft (.seq (.seq (.fmap .any fun _ _ _ _ _ _ => rfl) .any) .any)
  | validate =>
      exact .seqLeft (.seq (.seq (.seq (.fmap .any fun _ _ _ _ _ _ _ _ => rfl) .any) .any) .any)

theorem operatorOf_eq_ok {args : Arguments n} {op' : Operator} (h : operatorOf op args = .ok op') :
    (((args.get? "op").map Subtype.val).getD (.str op.name)) = .str op'.name := by
  unfold operatorOf at h
  split at h
  · next hnone =>
      cases h
      rw [hnone]
      rfl
  · next tag htag =>
      rw [htag]
      split at h
      · next s hs =>
          show tag.1 = _
          cases hfind : Operator.ofName? s with
          | none =>
              rw [hfind] at h
              cases h
          | some found =>
              rw [hfind] at h
              cases h
              have hname := List.find?_some hfind
              rw [hs, ← beq_iff_eq.mp hname]
      · cases h

/-- What is read from an operator object is read from arguments of some
operator. -/
theorem exists_arguments {e : Expr} (h : read (.obj [(op.name, arg)]) = .done e) :
    ∃ (args : Arguments (arg.size + 1)) (op' : Operator), Arguments.ofShape op arg = .ok args ∧
      operatorOf op args = .ok op' ∧ ofArguments op' args (fun w => read w.1) = .done e := by
  have hobject : Operator.ofObject? (.obj [(op.name, arg)]) = some (op, arg) := by
    rw [Operator.ofObject?, Operator.ofName?_name]
    rfl
  rw [read] at h
  split at h
  · next hnone =>
      rw [hobject] at hnone
      cases hnone
  · next hsome =>
      rw [hobject] at hsome
      cases hsome
      split at h
      · cases h
      · next args hargs =>
          split at h
          · cases h
          · next op' hop => exact ⟨args, op', hargs, hop, under_eq_done.mp h⟩

/-- What is read from an operator object is of the operator that its tag
names. -/
theorem read_tag {e : Expr} (h : read (.obj [(op.name, arg)]) = .done e) :
    op.tag arg = .str e.operator.name := by
  obtain ⟨args, op', hargs, hop, hread⟩ := exists_arguments h
  rw [Operator.tag, ← Operator.lookup_of_ofShape hargs, ← Arguments.val_get?,
    operatorOf_eq_ok hop, ofArguments_operator op' args _ e hread]

/-- An operator object that can be read at all is read as the operator of its
key, exactly if there is no field `op` among its named arguments or that field
has the name of the operator too. Else it is read as the operator that the
field names, and as nothing else. -/
theorem read_operator {e : Expr} (h : read (.obj [(op.name, arg)]) = .done e) :
    (e.operator = op ↔ ∀ tag, op.tagIn? arg = some tag → tag = .str op.name) ∧
      ∀ tag, op.tagIn? arg = some tag → tag = .str e.operator.name := by
  have htag := read_tag h
  unfold Operator.tag at htag
  cases hin : op.tagIn? arg with
  | none =>
      rw [hin] at htag
      cases Operator.name_inj.mp (Value.str.inj htag)
      simp
  | some tag =>
      rw [hin] at htag
      cases htag
      simp [Operator.name_inj]

/-- Two numbers under `$add` that are told to be operands of an operator. -/
def addTagged (o : Variadic) : Value :=
  .obj [("op", .str o.operatorName), ("operands", .arr [.int 2, .int 3])]

def ofTwoAndThree (o : Variadic) : Expr :=
  .variadic o (.literal (.int 2)) (.literal (.int 3)) []

theorem read_addTagged (o : Variadic) :
    read (.obj [("$add", addTagged o)]) = .done (ofTwoAndThree o) := by
  have htwo : read (.int 2) = .done (.literal (.int 2)) := read_literal rfl
  have hthree : read (.int 3) = .done (.literal (.int 3)) := read_literal rfl
  have hsize : (Value.str o.operatorName).size < (addTagged o).size + 1 ∧
      (Value.arr [.int 2, .int 3]).size < (addTagged o).size + 1 := by
    cases o <;> decide
  let args : Arguments ((addTagged o).size + 1) :=
    ⟨[(.str "op", ⟨.str o.operatorName, hsize.1⟩),
      (.str "operands", ⟨.arr [.int 2, .int 3], hsize.2⟩)]⟩
  have hshape : Arguments.ofShape (.variadic .add) (addTagged o) = .ok args := rfl
  have hop : operatorOf (.variadic .add) args = .ok (.variadic o) := by
    have hname : Operator.ofName? o.operatorName = some (.variadic o) :=
      Operator.ofName?_name (.variadic o)
    simp [args, operatorOf, Arguments.get?, hname]
  rw [read_eq rfl hshape hop]
  simp [args, ofArguments, Arguments.required, Arguments.find?, Arguments.get?,
    Arguments.closed, Arguments.present?, Arguments.leftover, readOperands, readList,
    Reading.list, Reading.items, Value.items?, Smaller.widen, Reading.map, Reading.andThen,
    Reading.under, Functor.map, SeqLeft.seqLeft, Reading.apply, htwo, hthree, ofTwoAndThree]

theorem read_operator_addTagged :
    read (.obj [((Operator.variadic .add).name, addTagged .add)]) = .done (ofTwoAndThree .add) ∧
      ((ofTwoAndThree .add).operator = .variadic .add ↔
        ∀ tag, (Operator.variadic .add).tagIn? (addTagged .add) = some tag → tag = .str "$add") ∧
      ∀ tag, (Operator.variadic .add).tagIn? (addTagged .add) = some tag →
        tag = .str (ofTwoAndThree .add).operator.name :=
  ⟨read_addTagged .add, read_operator (read_addTagged .add)⟩

/-- A sum that is told to be a product is read as one. -/
theorem addTagged_multiplies :
    read (.obj [((Operator.variadic .add).name, addTagged .multiply)]) =
        .done (ofTwoAndThree .multiply) ∧
      (ofTwoAndThree .multiply).operator ≠ .variadic .add :=
  ⟨read_addTagged .multiply, by decide⟩

end Expr

end Conduit
