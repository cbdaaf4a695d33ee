import Conduit.Expr.Reader
import Conduit.Proofs.Expr.Parts
import Conduit.Proofs.Query.Reader
import Conduit.Proofs.Reading

/-!
# What is read is checked

All that a path, a query, a template or a schema can be wrong in is found
while an expression is read, and so is what an operator asks of its other
arguments. Here this is shown for every operator at every depth: whatever
shape its arguments were given in, each part of an expression that was read
passes the checks of its operator.
-/

namespace Conduit

theorem Template.text_of_parse {text : String} {t : Template} (h : parse text = .ok t) :
    t.text = text := by
  unfold parse at h
  dsimp only [bind, Except.bind] at h
  split at h
  · cases h
  · split at h
    · cases h
    · split at h
      · cases h
      · cases h
        rfl
      · split at h <;> cases h

/-- A template that its text is read into. -/
def Template.Rereads (t : Template) : Prop := parse t.text = .ok t

theorem Template.rereads_of_parse {text : String} {t : Template} (h : parse text = .ok t) :
    t.Rereads := by
  rw [Rereads, text_of_parse h]
  exact h

/-- Options that skip and keep no negative number of documents. -/
def QueryOptions.IsChecked (options : QueryOptions) : Prop :=
  (∀ n, options.limit = some n → 0 ≤ n) ∧ ∀ n, options.skip = some n → 0 ≤ n

/-- A schema given in place that keeps to the rules of schemas. -/
def SchemaRef.IsChecked : SchemaRef → Prop
  | .inline schema => Schema.isValid schema = true
  | .named _ => True

namespace Expr

/-- What an operator asks of its own arguments, its operands left aside. -/
def IsChecked : Expr → Prop
  | .get path => path.Rereads
  | .jsonPath text segments => Query.parse text = .ok segments
  | .reduce _ element accumulator _ _ => element ≠ accumulator
  | .dbQuery _ _ options => options.IsChecked
  | .renderString template _ => template.Rereads
  | .validate _ schema _ _ => schema.IsChecked
  | _ => True

/-- All parts that a walk meets are checked, whatever is bound where it
starts. -/
def AllChecked (walk : List String → List Part) : Prop :=
  ∀ bound, ∀ p ∈ walk bound, p.expr.IsChecked

/-! ## Lists of expressions -/

theorem allChecked_option {o : Option Expr} (h : ∀ e, o = some e → AllChecked (parts · e)) :
    AllChecked (partsOption · o) := by
  cases o with
  | none => exact fun _ _ hp => by cases hp
  | some e => exact h e rfl

theorem allChecked_all {es : List Expr} (h : ∀ e ∈ es, AllChecked (parts · e)) :
    AllChecked (partsAll · es) := by
  induction es with
  | nil => exact fun _ _ hp => by cases hp
  | cons e rest ih =>
      obtain ⟨he, hrest⟩ := List.forall_mem_cons.mp h
      exact fun bound => List.forall_mem_append.mpr ⟨he bound, ih hrest bound⟩

theorem allChecked_cases {cs : List (Case Expr)} (h : ∀ c ∈ cs, AllChecked (parts · c.result)) :
    AllChecked (partsCases · cs) := by
  induction cs with
  | nil => exact fun _ _ hp => by cases hp
  | cons c rest ih =>
      obtain ⟨hc, hrest⟩ := List.forall_mem_cons.mp h
      exact fun bound => List.forall_mem_append.mpr ⟨hc bound, ih hrest bound⟩

theorem allChecked_fields {fs : List (String × Expr)} (h : ∀ f ∈ fs, AllChecked (parts · f.2)) :
    AllChecked (partsFields · fs) := by
  induction fs with
  | nil => exact fun _ _ hp => by cases hp
  | cons f rest ih =>
      obtain ⟨hf, hrest⟩ := List.forall_mem_cons.mp h
      exact fun bound => List.forall_mem_append.mpr ⟨hf bound, ih hrest bound⟩

theorem allChecked_payloadOption {o : Option (Payload Expr)}
    (h : ∀ p, o = some p → AllChecked (partsPayload · p)) :
    AllChecked (partsPayloadOption · o) := by
  cases o with
  | none => exact fun _ _ hp => by cases hp
  | some p => exact h p rfl

theorem allChecked_payloads {ps : List (Payload Expr)}
    (h : ∀ p ∈ ps, AllChecked (partsPayload · p)) : AllChecked (partsPayloads · ps) := by
  induction ps with
  | nil => exact fun _ _ hp => by cases hp
  | cons p rest ih =>
      obtain ⟨hp, hrest⟩ := List.forall_mem_cons.mp h
      exact fun bound => List.forall_mem_append.mpr ⟨hp bound, ih hrest bound⟩

/-! ## Arguments -/

open Reading

section Arguments

variable {n : Nat} {read : Smaller n → Reading Expr}

theorem readPath_yields (v : Smaller n) : Yields DotPath.Rereads (readPath v) :=
  .andThen .any fun _ _ => .ofExcept fun _ h => DotPath.rereads_of_parse h

theorem readQuery_yields (v : Smaller n) :
    Yields (fun e => AllChecked (parts · e)) (readQuery v) := by
  refine .andThen .any fun s _ => ?_
  split
  · next segments h =>
      refine .done fun bound p hp => ?_
      obtain rfl := List.mem_singleton.mp hp
      exact h
  · exact .refused
  · exact .refused

theorem readTemplate_yields (v : Smaller n) : Yields Template.Rereads (readTemplate v) :=
  .andThen .any fun _ _ => .ofExcept fun _ h => Template.rereads_of_parse h

theorem readSchema_yields (v : Smaller n) : Yields SchemaRef.IsChecked (readSchema v) := by
  unfold readSchema
  split
  · exact .done trivial
  · split
    · split
      · next h => exact .done h
      · exact .refused
    · exact .refused

theorem count_yields (v : Value) : Yields (fun i => 0 ≤ i) (Reading.count v) := by
  refine .andThen .any fun i _ => ?_
  split
  · exact .refused
  · next h => exact .done (Int.not_lt.mp h)

theorem readOptions_yields (args : Arguments n) :
    Yields QueryOptions.IsChecked (readOptions args) := by
  refine .seq (.seq (.seq (.fmap .any ?_) (.nullable fun v => count_yields v.1))
    (.nullable fun v => count_yields v.1)) .any
  exact fun select _ limit hlimit skip hskip sort _ => ⟨hlimit, hskip⟩

theorem foldOf_yields {items initial body : Expr} {element accumulator : String}
    (hitems : AllChecked (parts · items)) (hinitial : AllChecked (parts · initial))
    (hbody : AllChecked (parts · body)) :
    Yields (fun e => AllChecked (parts · e)) (foldOf items element accumulator initial body) := by
  unfold foldOf
  split
  · exact .refused
  · next h =>
      refine .done fun bound => ?_
      simp only [parts, List.forall_mem_cons, List.forall_mem_append]
      exact ⟨h, ⟨hitems bound, hinitial bound⟩, hbody _⟩

/-! ### Operands -/

variable (hr : ∀ v, Yields (fun e => AllChecked (parts · e)) (read v))
include hr

theorem readPayload_yields (v : Smaller n) :
    Yields (fun p => AllChecked (partsPayload · p)) (readPayload read v) := by
  unfold readPayload
  split
  · exact .under (.map (.fields fun w => hr _) fun fs h => allChecked_fields h)
  · exact .under (.map (hr v) fun e h => h)

theorem readCase_yields (v : Smaller n) :
    Yields (fun c => AllChecked (parts · c.result)) (readCase read v) := by
  unfold readCase
  split
  · exact .map (.under (hr _)) fun e h => h
  · split
    · refine .seqLeft (.seq (.fmap .any ?_) (.required fun w => hr _))
      exact fun subject _ result h => h
    · exact .refused

theorem readOperands_yields (v : Smaller n) :
    Yields (fun p => AllChecked (parts · p.1) ∧ AllChecked (parts · p.2.1) ∧
      AllChecked (partsAll · p.2.2)) (readOperands read v) := by
  refine .andThen (.list fun w => hr _) fun operands h => ?_
  split
  · next first second rest =>
      obtain ⟨hfirst, h⟩ := List.forall_mem_cons.mp h
      obtain ⟨hsecond, hrest⟩ := List.forall_mem_cons.mp h
      exact .done ⟨hfirst, hsecond, allChecked_all hrest⟩
  · exact .refused

theorem readTwo_yields (v : Smaller n) :
    Yields (fun p => AllChecked (parts · p.1) ∧ AllChecked (parts · p.2)) (readTwo read v) := by
  unfold readTwo
  split
  · split
    · exact .refused
    · exact .map (readOperands_yields hr v) fun p h => ⟨h.1, h.2.1⟩
  · exact .refused

/-- Whatever operator it is, an expression is checked at all depths once its
operands are. -/
theorem ofArguments_yields (op : Operator) (args : Arguments n) :
    Yields (fun e => AllChecked (parts · e)) (ofArguments op args read) := by
  have hpayload := readPayload_yields hr
  cases op with
  | literal =>
      refine .seqLeft (.fmap .any fun v _ bound p hp => ?_)
      obtain rfl := List.mem_singleton.mp hp
      trivial
  | get =>
      refine .seqLeft (.fmap (.required readPath_yields) fun path hpath bound p hp => ?_)
      obtain rfl := List.mem_singleton.mp hp
      exact hpath
  | jsonPath => exact .seqLeft (.required readQuery_yields)
  | branch =>
      refine .seqLeft (.seq (.seq (.fmap (.required hr) ?_) (.required hr)) (.nullable hr))
      intro condition hcondition yes hyes no hno bound
      simp only [parts, List.forall_mem_cons, List.forall_mem_append]
      exact ⟨trivial, ⟨hcondition bound, hyes bound⟩, allChecked_option hno bound⟩
  | switch =>
      refine .seqLeft (.seq (.seq (.fmap (.required hr) ?_)
        (.required fun v => .list fun w => readCase_yields hr _)) (.nullable hr))
      intro subject hsubject cases hcases fallback hfallback bound
      simp only [parts, List.forall_mem_cons, List.forall_mem_append]
      exact ⟨trivial, ⟨hsubject bound, allChecked_cases hcases bound⟩,
        allChecked_option hfallback bound⟩
  | map =>
      refine .seqLeft (.seq (.seq (.fmap (.required hr) ?_) .any) (.required hr))
      intro items hitems element _ body hbody bound
      simp only [parts, List.forall_mem_cons, List.forall_mem_append]
      exact ⟨trivial, hitems bound, hbody _⟩
  | filter =>
      refine .seqLeft (.seq (.seq (.fmap (.required hr) ?_) .any) (.required hr))
      intro items hitems element _ predicate hpredicate bound
      simp only [parts, List.forall_mem_cons, List.forall_mem_append]
      exact ⟨trivial, hitems bound, hpredicate _⟩
  | reduce =>
      refine .andThen (P := fun p => AllChecked (parts · p.1) ∧ AllChecked (parts · p.2.2.2.1) ∧
        AllChecked (parts · p.2.2.2.2)) (.seqLeft (.seq (.seq (.seq (.seq (.fmap (.required hr) ?_)
          .any) .any) (.required hr)) (.required hr))) ?_
      · exact fun items hitems _ _ _ _ initial hinitial body hbody => ⟨hitems, hinitial, hbody⟩
      · exact fun _ h => foldOf_yields h.1 h.2.1 h.2.2
  | dbQuery =>
      refine .seqLeft (.seq (.seq (.fmap .any ?_) (.nullable hpayload)) (readOptions_yields args))
      intro collection _ criteria hcriteria options hoptions bound
      simp only [parts, List.forall_mem_cons]
      exact ⟨hoptions, allChecked_payloadOption hcriteria bound⟩
  | dbInsert =>
      refine .seqLeft (.seq (.fmap .any ?_) (.required hpayload))
      intro collection _ document hdocument bound
      simp only [parts, List.forall_mem_cons]
      exact ⟨trivial, hdocument bound⟩
  | dbUpdate =>
      refine .seqLeft (.seq (.seq (.fmap .any ?_) (.required hpayload)) (.required hpayload))
      intro collection _ criteria hcriteria update hupdate bound
      simp only [parts, List.forall_mem_cons, List.forall_mem_append]
      exact ⟨trivial, hcriteria bound, hupdate bound⟩
  | dbDelete =>
      refine .seqLeft (.seq (.fmap .any ?_) (.required hpayload))
      intro collection _ criteria hcriteria bound
      simp only [parts, List.forall_mem_cons]
      exact ⟨trivial, hcriteria bound⟩
  | merge =>
      refine .seqLeft (.fmap (.required fun v => .list fun w => hpayload _) ?_)
      intro objects hobjects bound
      simp only [parts, List.forall_mem_cons]
      exact ⟨trivial, allChecked_payloads hobjects bound⟩
  | present =>
      refine .seqLeft (.fmap (.required hr) fun value hvalue bound => ?_)
      simp only [parts, List.forall_mem_cons]
      exact ⟨trivial, hvalue bound⟩
  | now =>
      refine .fmap .any fun _ _ bound p hp => ?_
      obtain rfl := List.mem_singleton.mp hp
      trivial
  | renderString =>
      refine .seqLeft (.seq (.fmap (.required readTemplate_yields) ?_) (.nullable hpayload))
      intro template htemplate vars hvars bound
      simp only [parts, List.forall_mem_cons]
      exact ⟨htemplate, allChecked_payloadOption hvars bound⟩
  | earlyReturn =>
      refine .seqLeft (.fmap (.required hpayload) fun value hvalue bound => ?_)
      simp only [parts, List.forall_mem_cons]
      exact ⟨trivial, hvalue bound⟩
  | validate =>
      refine .seqLeft (.seq (.seq (.seq (.fmap (.required hr) ?_) (.required readSchema_yields))
        .any) (.nullable hr))
      intro value hvalue schema hschema strict _ onFail honFail bound
      simp only [parts, List.forall_mem_cons, List.forall_mem_append]
      exact ⟨hschema, hvalue bound, allChecked_option honFail _⟩
  | compare op =>
      refine .seqLeft (.seq (.fmap (.required hr) ?_) (.required hr))
      intro left hleft right hright bound
      simp only [parts, List.forall_mem_cons, List.forall_mem_append]
      exact ⟨trivial, hleft bound, hright bound⟩
  | and =>
      refine .seqLeft (.fmap (.required fun v => .list fun w => hr _) fun operands h bound => ?_)
      simp only [parts, List.forall_mem_cons]
      exact ⟨trivial, allChecked_all h bound⟩
  | or =>
      refine .seqLeft (.fmap (.required fun v => .list fun w => hr _) fun operands h bound => ?_)
      simp only [parts, List.forall_mem_cons]
      exact ⟨trivial, allChecked_all h bound⟩
  | not =>
      refine .seqLeft (.fmap (.required hr) fun operand h bound => ?_)
      simp only [parts, List.forall_mem_cons]
      exact ⟨trivial, h bound⟩
  | variadic op =>
      refine .seqLeft (.fmap (.required (readOperands_yields hr)) fun p h bound => ?_)
      obtain ⟨hfirst, hsecond, hrest⟩ := h
      simp only [parts, List.forall_mem_cons, List.forall_mem_append]
      exact ⟨trivial, ⟨hfirst bound, hsecond bound⟩, hrest bound⟩
  | dyadic op =>
      refine .seqLeft (.fmap (.required (readTwo_yields hr)) fun p h bound => ?_)
      simp only [parts, List.forall_mem_cons, List.forall_mem_append]
      exact ⟨trivial, h.1 bound, h.2 bound⟩

end Arguments

/-! ## Reading -/

theorem read_literal {v : Value} (h : Operator.ofObject? v = none) :
    read v = .done (.literal v) := by
  rw [read]
  split
  · rfl
  · next hsome =>
      rw [h] at hsome
      cases hsome

/-- An operator is read from its arguments, once they are found. -/
theorem read_eq {v arg : Value} {op op' : Operator} {args : Arguments (arg.size + 1)}
    (h : Operator.ofObject? v = some (op, arg)) (hshape : Arguments.ofShape op arg = .ok args)
    (hop : operatorOf op args = .ok op') :
    read v = (ofArguments op' args fun w => read w.1).under (.key op'.name) := by
  rw [read]
  split
  · next hnone =>
      rw [h] at hnone
      cases hnone
  · next hsome =>
      rw [h] at hsome
      cases hsome
      rw [hshape]
      dsimp only
      rw [hop]

theorem read_get {text : String} {path : DotPath} (h : DotPath.parse text = .ok path) :
    read (.obj [("$get", .str text)]) = .done (.get path) := by
  rw [read_eq rfl rfl rfl]
  simp [ofArguments, Arguments.required, Arguments.find?, Arguments.get?, Arguments.single,
    Arguments.closed, Arguments.present?, Arguments.leftover, readPath, Reading.string,
    Reading.andThen, Reading.ofExcept, Reading.under, Functor.map, SeqLeft.seqLeft,
    Reading.apply, h]

/-- Each part of an expression that was read, at any depth, passes the checks
of its operator. -/
theorem read_yields (v : Value) : Yields (fun e => AllChecked (parts · e)) (read v) := by
  fun_induction read v with
  | case1 v h =>
      refine .done fun bound p hp => ?_
      obtain rfl := List.mem_singleton.mp hp
      trivial
  | case2 v op arg h e hshape => exact .refused
  | case3 v op arg h args hshape tag htag => exact .refused
  | case4 v op arg h args hshape op' hop ih => exact .under (ofArguments_yields ih op' args)

end Expr

end Conduit
