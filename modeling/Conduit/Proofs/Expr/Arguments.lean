import Mathlib.Data.List.Pairwise
import Conduit.Proofs.Expr.Fields

/-!
# What becomes of arguments

An argument object is read only if every key of it is the one that counts for
some field, so no argument is dropped and none is given twice. The one way
around this is before the keys are looked at: where two operands may be given
in a list or as `left` and `right`, an object that does both loses the latter.
-/

namespace Conduit

open Reading

/-! ## Keys that count -/

namespace Arguments

variable {n : Nat} {args : Arguments n} {name : String} {es : List (Value × Value)} {v : Value}

theorem present?_eq_some {names : List String} (h : args.present? names = some name) :
    name ∈ names ∧ args.find? names = args.get? name := by
  unfold present? at h
  unfold find?
  induction names with
  | nil => cases h
  | cons first rest ih =>
      rw [List.find?_cons] at h
      rw [List.findSome?_cons]
      cases hget : args.get? first with
      | some v =>
          rw [hget] at h
          cases h
          exact ⟨List.mem_cons_self, hget.symm⟩
      | none =>
          rw [hget] at h
          obtain ⟨hmem, hfind⟩ := ih h
          exact ⟨List.mem_cons_of_mem _ hmem, hfind⟩

/-- Arguments that hold nothing but the given fields have no key that is not
the one that counts for a field. -/
theorem exists_present {groups : List (List String)} (h : args.closed groups = .done ())
    {a : Value × Value} (ha : a ∈ args.fields) :
    ∃ name, a.1 = .str name ∧ ∃ names ∈ groups, args.present? names = some name := by
  unfold closed at h
  dsimp only at h
  split at h
  · next hnil =>
      obtain ⟨e, he, rfl⟩ := List.mem_map.mp ha
      have hleft := List.filterMap_eq_nil_iff.mp hnil e he
      obtain ⟨key, v⟩ := e
      cases key with
      | str name =>
          have htaken : name ∈ groups.filterMap args.present? := by
            simpa [leftover] using hleft
          exact ⟨name, rfl, List.mem_filterMap.mp htaken⟩
      | _ => cases hleft
  · cases h

theorem lookup_of_mem (hkeys : (es.map Prod.fst).Nodup) (h : (.str name, v) ∈ es) :
    lookup name es = some v := by
  induction es with
  | nil => cases h
  | cons e rest ih =>
      obtain ⟨key, w⟩ := e
      obtain ⟨hnew, hrest⟩ := List.nodup_cons.mp hkeys
      rcases List.mem_cons.mp h with heq | hmem
      · cases heq
        exact if_pos rfl
      · have hlookup := ih hrest hmem
        have hkey : key ≠ .str name := fun hkey => hnew (List.mem_map.mpr ⟨_, hmem, hkey.symm⟩)
        cases key with
        | str s => rw [lookup, if_neg fun hs => hkey (congrArg Value.str hs), hlookup]
        | _ => exact hlookup

theorem lookup_isSome : (lookup name es).isSome ↔ .str name ∈ es.map Prod.fst := by
  induction es with
  | nil => simp [lookup]
  | cons e rest ih =>
      obtain ⟨key, w⟩ := e
      cases key with
      | str s =>
          rw [lookup]
          split
          · next hs => simp [hs]
          · next hs => simp [ih, Ne.symm hs]
      | _ => simp [lookup, ih]

theorem mem_keys_of_lookup (h : lookup name es = some v) : .str name ∈ es.map Prod.fst :=
  lookup_isSome.mp (by rw [h]; rfl)

end Arguments

/-- The key is one under which the field may be given. -/
def Field.Takes (f : Field) (key : Value) : Prop := ∃ s ∈ f.spellings, key = .str s

namespace Operator

/-- No two fields of an operator may be given under one key. -/
theorem pairwise_fields (op : Operator) :
    op.fields.Pairwise fun f g => ∀ s ∈ f.spellings, s ∉ g.spellings := by
  cases op with
  | compare c => cases c <;> decide
  | variadic o => cases o <;> decide
  | dyadic o => cases o <;> decide
  | _ => decide

theorem field_unique {op : Operator} {f g : Field} {key : Value} (hf : f ∈ op.fields)
    (hg : g ∈ op.fields) (hfk : f.Takes key) (hgk : g.Takes key) : f = g := by
  obtain ⟨s, hs, rfl⟩ := hfk
  obtain ⟨t, ht, hst⟩ := hgk
  cases hst
  have : Std.Symm fun f g : Field => ∀ s ∈ f.spellings, s ∉ g.spellings :=
    ⟨fun _ _ h s hs hs' => h s hs' hs⟩
  by_contra hne
  exact op.pairwise_fields.forall hf hg hne s hs ht

end Operator

/-! ## The entries of an argument object -/

namespace Arguments

def isSide : Value → Bool
  | .str key => key = "left" || key = "right"
  | _ => false

/-- The entries besides `left` and `right`. -/
def others (es : List (Value × Value)) : List (Value × Value) := es.filter fun a => !isSide a.1

/-- Entries, of which `left` and `right` are one if both are there. -/
def pairUp (es : List (Value × Value)) : List (Value × Value) :=
  match lookup "left" es, lookup "right" es with
  | some left, some right => (.str "operands", .arr [left, right]) :: others es
  | _, _ => es

variable {n : Nat} {es : List (Value × Value)} {hsize : Value.sizeValues es + 1 < n}
  {args : Arguments n}

theorem mem_keys_others {key : Value} (hkey : isSide key = false) :
    key ∈ (others es).map Prod.fst ↔ key ∈ es.map Prod.fst := by
  unfold others
  simp only [List.mem_map, List.mem_filter]
  constructor
  · rintro ⟨a, ⟨ha, _⟩, rfl⟩
    exact ⟨a, ha, rfl⟩
  · rintro ⟨a, ha, rfl⟩
    exact ⟨a, ⟨ha, by rw [hkey]; rfl⟩, rfl⟩

theorem fields_others (entries : List (Value × Smaller n)) :
    fields ⟨entries.filter fun e => match e.1 with
      | .str key => key ≠ "left" && key ≠ "right"
      | _ => true⟩ = others (fields ⟨entries⟩) := by
  have hkeep : (fun e : Value × Smaller n => match e.1 with
      | .str key => decide (key ≠ "left") && decide (key ≠ "right")
      | _ => true) = fun e => !isSide e.1 := by
    funext ⟨key, v⟩
    cases key with
    | str s => simp [isSide]
    | _ => rfl
  unfold fields others
  rw [hkeep, List.filter_map]
  rfl

theorem any_key {name : String} (entries : List (Value × Smaller n)) :
    (entries.any fun e => match e.1 with
      | .str key => key == name
      | _ => false) = true ↔ .str name ∈ (fields ⟨entries⟩).map Prod.fst := by
  unfold fields
  rw [List.any_eq_true, List.map_map, List.mem_map]
  refine exists_congr fun ⟨key, v⟩ => and_congr_right fun _ => ?_
  cases key with
  | str s => simp
  | _ => simp

theorem pairUp_eq {left right : Value} (hleft : lookup "left" es = some left)
    (hright : lookup "right" es = some right) :
    pairUp es = (.str "operands", .arr [left, right]) :: others es := by
  unfold pairUp
  rw [hleft, hright]

theorem pairUp_eq_self (h : ¬ (.str "left" ∈ es.map Prod.fst ∧ .str "right" ∈ es.map Prod.fst)) :
    pairUp es = es := by
  unfold pairUp
  split
  · next hleft hright =>
      exact absurd ⟨mem_keys_of_lookup hleft, mem_keys_of_lookup hright⟩ h
  · rfl

theorem operandPair_eq_none (h : operandPair es hsize = none) :
    ¬ (.str "left" ∈ es.map Prod.fst ∧ .str "right" ∈ es.map Prod.fst) := by
  rw [← lookup_isSome, ← lookup_isSome]
  unfold operandPair at h
  split at h
  · next hleft => simp [hleft]
  · split at h
    · next hright => simp [hright]
    · cases h

/-- With `left` and `right` both there, the operands are these, unless they are
given once more. -/
theorem operandPair_eq_some (h : operandPair es hsize = some args) :
    (.str "left" ∈ es.map Prod.fst ∧ .str "right" ∈ es.map Prod.fst) ∧
      (.str "operands" ∈ es.map Prod.fst → args.fields = others es) ∧
      (.str "operands" ∉ es.map Prod.fst → args.fields = pairUp es) := by
  have hkeys : .str "operands" ∈ (others es).map Prod.fst ↔ .str "operands" ∈ es.map Prod.fst :=
    mem_keys_others rfl
  have hothers := fields_others (ofEntries es (Nat.lt_of_succ_lt hsize)).entries
  rw [fields_ofEntries (Nat.lt_of_succ_lt hsize)] at hothers
  unfold operandPair at h
  split at h
  · cases h
  · next left hleft =>
      split at h
      · cases h
      · next right hright =>
          cases h
          refine ⟨⟨mem_keys_of_lookup hleft, mem_keys_of_lookup hright⟩, ?_⟩
          split
          · next hgiven =>
              have hmem : .str "operands" ∈ (others es).map Prod.fst := by
                rw [← hothers]
                exact (any_key _).mp hgiven
              exact ⟨fun _ => hothers, fun hnot => absurd (hkeys.mp hmem) hnot⟩
          · next hgiven =>
              have hmem : .str "operands" ∉ (others es).map Prod.fst := by
                rw [← hothers]
                exact fun hmem => hgiven ((any_key _).mpr hmem)
              refine ⟨fun hin => absurd (hkeys.mpr hin) hmem, fun _ => ?_⟩
              exact (congrArg (List.cons _) hothers).trans (pairUp_eq hleft hright).symm

theorem nodup_others (h : (es.map Prod.fst).Nodup) : ((others es).map Prod.fst).Nodup :=
  h.sublist (List.filter_sublist.map _)

theorem nodup_pairUp (h : (es.map Prod.fst).Nodup) (hnot : .str "operands" ∉ es.map Prod.fst) :
    ((pairUp es).map Prod.fst).Nodup := by
  unfold pairUp
  split
  · exact List.nodup_cons.mpr ⟨fun hmem => hnot ((mem_keys_others rfl).mp hmem), nodup_others h⟩
  · exact h

end Arguments

namespace Operator

open Arguments

/-- The arguments that an argument object gives. An operator that takes its
operand as it is has the object as a whole for one. -/
def given (op : Operator) (arg : Value) (es : List (Value × Value)) : List (Value × Value) :=
  match op.shape with
  | .operand name => [(.str name, arg)]
  | .operands => pairUp es
  | _ => es

/-- The operands are given in a list and as `left` and `right` as well. -/
def GivesOperandsTwice (op : Operator) (es : List (Value × Value)) : Prop :=
  op.shape = .operands ∧ (.str "left" ∈ es.map Prod.fst ∧ .str "right" ∈ es.map Prod.fst) ∧
    .str "operands" ∈ es.map Prod.fst

variable {op : Operator} {arg : Value} {es : List (Value × Value)}
  {args : Arguments (arg.size + 1)}

/-- An object of operands in any form is read by its entries, or by the pair
that two of them make. -/
theorem ofShape_operands (h : ofShape op arg = .ok args) (hes : arg.entries? = some es)
    (hshape : op.shape = .operands) :
    operandPair es (Nat.succ_lt_succ (Value.sizeValues_entries hes)) = some args ∨
      operandPair es (Nat.succ_lt_succ (Value.sizeValues_entries hes)) = none ∧
        args.fields = es := by
  unfold ofShape at h
  rw [hshape] at h
  dsimp only at h
  split at h
  · cases hes
  · split at h
    · next hentries _ =>
        obtain rfl := Option.some.inj (hentries.symm.trans hes)
        split at h
        · next hpair =>
            cases h
            exact .inl hpair
        · next hpair =>
            cases h
            exact .inr ⟨hpair, fields_ofEntries _⟩
    · cases h

theorem fields_of_ofShape (h : ofShape op arg = .ok args) (hes : arg.entries? = some es)
    (honce : ¬ op.GivesOperandsTwice es) : args.fields = op.given arg es := by
  have hnamed : ∀ {args}, named op arg = .ok args → args.fields = es := by
    intro args hargs
    rw [fields_named hargs] at hes
    exact Option.some.inj hes
  have hoperands := ofShape_operands h hes
  unfold ofShape at h
  unfold given
  cases hs : op.shape with
  | operands =>
      rcases hoperands hs with hpair | ⟨hpair, hfields⟩
      · obtain ⟨hsides, _, hpairUp⟩ := operandPair_eq_some hpair
        exact hpairUp fun hmem => honce ⟨hs, hsides, hmem⟩
      · rw [hfields]
        exact (pairUp_eq_self (operandPair_eq_none hpair)).symm
  | operand name =>
      rw [hs] at h
      cases h
      rfl
  | named =>
      rw [hs] at h
      exact hnamed h
  | text name | list name =>
      rw [hs] at h
      dsimp only at h
      split at h
      · cases hes
      · exact hnamed h
  | pair =>
      rw [hs] at h
      dsimp only at h
      split at h
      · cases hes
      · cases h
      · exact hnamed h
  | nothing =>
      rw [hs] at h
      dsimp only at h
      split at h
      · cases hes
      · cases h
        exact Option.some.inj hes
      · cases h

theorem fields_of_twice (h : ofShape op arg = .ok args) (hes : arg.entries? = some es)
    (htwice : op.GivesOperandsTwice es) : args.fields = others es := by
  obtain ⟨hshape, hsides, hmem⟩ := htwice
  rcases ofShape_operands h hes hshape with hpair | ⟨hpair, _⟩
  · exact (operandPair_eq_some hpair).2.1 hmem
  · exact absurd hsides (operandPair_eq_none hpair)

theorem given_of_twice (arg : Value) (htwice : op.GivesOperandsTwice es) :
    ∃ left right, op.given arg es = (.str "operands", .arr [left, right]) :: others es := by
  obtain ⟨hshape, ⟨hleft, hright⟩, _⟩ := htwice
  obtain ⟨left, hleft⟩ := Option.isSome_iff_exists.mp (lookup_isSome.mpr hleft)
  obtain ⟨right, hright⟩ := Option.isSome_iff_exists.mp (lookup_isSome.mpr hright)
  refine ⟨left, right, ?_⟩
  unfold given
  rw [hshape]
  exact pairUp_eq hleft hright

theorem nodup_given (hkeys : (es.map Prod.fst).Nodup) (honce : ¬ op.GivesOperandsTwice es) :
    ((op.given arg es).map Prod.fst).Nodup := by
  unfold given
  split
  · simp
  · next hshape =>
      by_cases hsides : .str "left" ∈ es.map Prod.fst ∧ .str "right" ∈ es.map Prod.fst
      · exact nodup_pairUp hkeys fun hmem => honce ⟨hshape, hsides, hmem⟩
      · rw [pairUp_eq_self hsides]
        exact hkeys
  · exact hkeys

end Operator

namespace Expr

/-! ## Supplies -/

/-- The entry gives the field: it stands under one of the keys of the field, and
the expression holds under the field's name what the entry is read into. -/
structure Supplies (e : Expr) (a : Value × Value) (f : Field) : Prop where
  mem : f ∈ e.operator.fields
  takes : f.Takes a.1
  holds : ∃ w, f.read a.2 = .done w ∧ e.explicit.field? f.name = some w

/-- Each entry gives one field of the expression, and no field can take more
than one of them. -/
structure UsesEachOnce (e : Expr) (es : List (Value × Value)) : Prop where
  supplies : ∀ a ∈ es, ∃ f, Supplies e a f ∧ ∀ g, Supplies e a g → g = f
  once : es.Pairwise fun a b => ¬ ∃ f ∈ e.operator.fields, f.Takes a.1 ∧ f.Takes b.1

variable {n : Nat} {args : Arguments n} {op op' : Operator} {e : Expr}

theorem ofArguments_closed (op : Operator) (args : Arguments n) (read : Smaller n → Reading Expr) :
    Yields (fun _ => args.closed (op.fields.map Field.spellings) = .done ())
      (ofArguments op args read) := by
  have hunit : ∀ {r : Reading Unit}, (∃ u, r = .done u) → r = .done () := fun ⟨_, h⟩ => h
  cases op with
  | reduce => exact .andThen Yields.right fun _ h _ _ => hunit h
  | now => exact .fmap (fun _ h => h) fun _ h => h
  | _ => exact fun e he => hunit (Yields.right e he)

/-- The key of each argument is the one that counts for a field. -/
theorem exists_field {read : Smaller n → Reading Expr} (h : ofArguments op args read = .done e)
    {a : Value × Value} (ha : a ∈ args.fields) :
    ∃ f ∈ e.operator.fields, ∃ name, a.1 = .str name ∧ args.present? f.spellings = some name := by
  have hclosed := ofArguments_closed op args read e h
  obtain ⟨name, hname, _, hspellings, hpresent⟩ := Arguments.exists_present hclosed ha
  obtain ⟨f, hf, rfl⟩ := List.mem_map.mp hspellings
  rw [← ofArguments_operator op args read e h] at hf
  exact ⟨f, hf, name, hname, hpresent⟩

theorem tag_fills (h : operatorOf op args = .ok op') :
    Fills args (stringField "op" ["op"]) (.str op'.name) := by
  intro v hv
  have hget : args.get? "op" = some v := by
    simpa [Arguments.find?, stringField, Field.of] using hv
  have htag := operatorOf_eq_ok h
  rw [hget] at htag
  have htag : v.1 = .str op'.name := htag
  show (Reading.string v.1).map Value.str = .done (.str op'.name)
  rw [htag]
  rfl

theorem takes_of_present {f : Field} {name : String} {key : Value} (hkey : key = .str name)
    (h : args.present? f.spellings = some name) : f.Takes key :=
  ⟨name, (Arguments.present?_eq_some h).1, hkey⟩

theorem ofArguments_supplies (hop : operatorOf op args = .ok op')
    (h : ofArguments op' args (fun w => read w.1) = .done e)
    (hkeys : (args.fields.map Prod.fst).Nodup) {a : Value × Value} (ha : a ∈ args.fields) :
    ∃ f, Supplies e a f := by
  have hholds : Holds args e.operator.fields e := by
    obtain rfl := ofArguments_operator op' args _ e h
    refine .cons ?_ (tag_fills hop) (ofArguments_holds _ args e h)
    cases e <;> rfl
  obtain ⟨f, hf, name, hname, hpresent⟩ := exists_field h ha
  have hlookup : (args.get? name).map Subtype.val = some a.2 := by
    rw [Arguments.val_get?]
    exact Arguments.lookup_of_mem hkeys (by rw [← hname]; exact ha)
  obtain ⟨v, hget, hv⟩ := Option.map_eq_some_iff.mp hlookup
  obtain ⟨w, hw, hfills⟩ := hholds f hf
  refine ⟨f, hf, takes_of_present hname hpresent, w, ?_, hw⟩
  rw [← hv]
  exact hfills v ((Arguments.present?_eq_some hpresent).2.trans hget)

theorem ofArguments_usesEachOnce (hop : operatorOf op args = .ok op')
    (h : ofArguments op' args (fun w => read w.1) = .done e)
    (hkeys : (args.fields.map Prod.fst).Nodup) : UsesEachOnce e args.fields := by
  constructor
  · intro a ha
    obtain ⟨f, hf⟩ := ofArguments_supplies hop h hkeys ha
    exact ⟨f, hf, fun g hg => Operator.field_unique hg.mem hf.mem hg.takes hf.takes⟩
  · refine (List.pairwise_map.mp hkeys).imp_of_mem ?_
    rintro a b ha hb hne ⟨f, hf, hfa, hfb⟩
    -- Both keys are the one that counts for the same field.
    obtain ⟨g, hg, name, hname, hpresent⟩ := exists_field h ha
    obtain ⟨g', hg', name', hname', hpresent'⟩ := exists_field h hb
    obtain rfl := Operator.field_unique hf hg hfa (takes_of_present hname hpresent)
    obtain rfl := Operator.field_unique hf hg' hfb (takes_of_present hname' hpresent')
    rw [hpresent] at hpresent'
    cases hpresent'
    exact hne (hname.trans hname'.symm)

variable {arg : Value} {es : List (Value × Value)}

theorem read_subtract {x y : Int} {args : Arguments (arg.size + 1)}
    (hshape : Arguments.ofShape (.dyadic .subtract) arg = .ok args)
    (hargs : args.fields = [(.str "operands", .arr [.int x, .int y])]) :
    read (.obj [("$subtract", arg)]) =
      .done (.dyadic .subtract (.literal (.int x)) (.literal (.int y))) := by
  have hx : read (.int x) = .done (.literal (.int x)) := read_literal rfl
  have hy : read (.int y) = .done (.literal (.int y)) := read_literal rfl
  obtain ⟨entries⟩ := args
  obtain ⟨⟨key, v, hv⟩, rfl, hentry⟩ := List.map_eq_singleton_iff.mp hargs
  cases hentry
  rw [read_eq rfl hshape rfl]
  simp [ofArguments, Arguments.required, Arguments.find?, Arguments.get?, Arguments.closed,
    Arguments.present?, Arguments.leftover, readTwo, readOperands, readList, Reading.list,
    Reading.items, Value.items?, Smaller.widen, Reading.map, Reading.andThen, Reading.under,
    Functor.map, SeqLeft.seqLeft, Reading.apply, hx, hy]

/-- Of an argument object that is read, each entry gives one field of the
expression, and none is given twice, with one exception: two operands in a list
take the place of those under `left` and `right`, which are lost. -/
theorem read_usesEachOnce (h : read (.obj [(op.name, arg)]) = .done e)
    (hes : arg.entries? = some es) (hkeys : (es.map Prod.fst).Nodup) :
    UsesEachOnce e (op.given arg es) ↔ ¬ op.GivesOperandsTwice es := by
  obtain ⟨args, op', hshape, hop, hread⟩ := exists_arguments h
  constructor
  · intro huses htwice
    obtain ⟨a, ha, hkey⟩ := List.mem_map.mp ((Arguments.mem_keys_others rfl).mpr htwice.2.2)
    have hfields := Operator.fields_of_twice hshape hes htwice
    obtain ⟨f, hf, name, hname, hpresent⟩ := exists_field hread (by rw [hfields]; exact ha)
    have htakes := takes_of_present hname hpresent
    obtain ⟨left, right, hgiven⟩ := Operator.given_of_twice arg htwice
    have honce := huses.once
    rw [hgiven] at honce
    exact (List.pairwise_cons.mp honce).1 a ha ⟨f, hf, by rw [← hkey]; exact htakes, htakes⟩
  · intro honce
    have hfields := Operator.fields_of_ofShape hshape hes honce
    rw [← hfields]
    refine ofArguments_usesEachOnce hop hread ?_
    rw [hfields]
    exact Operator.nodup_given hkeys honce

theorem read_usesEachOnce_sides :
    read (.obj [("$subtract", .obj [("left", .int 5), ("right", .int 2)])]) =
        .done (.dyadic .subtract (.literal (.int 5)) (.literal (.int 2))) ∧
      UsesEachOnce (.dyadic .subtract (.literal (.int 5)) (.literal (.int 2)))
        [(.str "operands", .arr [.int 5, .int 2])] := by
  have hread : read (.obj [((Operator.dyadic .subtract).name,
      .obj [("left", .int 5), ("right", .int 2)])]) = .done _ := read_subtract rfl rfl
  exact ⟨hread, (read_usesEachOnce hread rfl (by simp)).mpr
    (by simp [Operator.GivesOperandsTwice])⟩

/-- Two operands by name, and two in a list. -/
def givenTwice : Value :=
  .obj [("left", .int 5), ("right", .int 2), ("operands", .arr [.int 7, .int 8])]

/-- Of operands given by name and in a list, those given by name are lost. -/
theorem givenTwice_lost :
    read (.obj [("$subtract", givenTwice)]) =
        .done (.dyadic .subtract (.literal (.int 7)) (.literal (.int 8))) ∧
      ∃ es, givenTwice.entries? = some es ∧ (es.map Prod.fst).Nodup ∧
        ¬ UsesEachOnce (.dyadic .subtract (.literal (.int 7)) (.literal (.int 8)))
          ((Operator.dyadic .subtract).given givenTwice es) := by
  refine ⟨read_subtract rfl rfl, _, rfl, by simp, fun huses => ?_⟩
  have htakes : twoField.Takes (.str "operands") := ⟨"operands", by decide, rfl⟩
  have hmem : twoField ∈ (Operator.dyadic .subtract).fields := .tail _ (.head _)
  exact (List.pairwise_cons.mp huses.once).1 _ (.head _) ⟨twoField, hmem, htakes, htakes⟩

end Expr

end Conduit
