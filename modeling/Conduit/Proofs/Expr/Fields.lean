import Conduit.Expr.Explicit
import Conduit.Proofs.Expr.Tag

/-!
# The fields of the operators

Each operator has fields, and each field has the keys under which an argument
object may give it. Whatever is given for a field is read into what the
expression holds under the field's name.
-/

namespace Conduit

open Reading

/-- A field of an operator: its name in the explicit form, the keys that give
it, and what a value under such a key is read into, in explicit form. -/
structure Field where
  name : String
  spellings : List String
  read : Value → Reading Value

namespace Field

variable {α : Type}

def of (name : String) (spellings : List String) (read : Value → Reading α) (form : α → Value) :
    Field := ⟨name, spellings, fun v => (read v).map form⟩

/-- A field that may be null. -/
def nullable (name : String) (spellings : List String) (read : Value → Reading α)
    (form : Option α → Value) : Field :=
  ⟨name, spellings, fun
    | .null => .done .null
    | v => (read v).map fun a => form (some a)⟩

end Field

namespace Expr

/-! ## The fields of the operators -/

theorem size_lt_succ (v : Value) : v.size < v.size + 1 := Nat.lt_succ_self _

/-- A value as one of bounded size. -/
def whole (v : Value) : Smaller (v.size + 1) := ⟨v, size_lt_succ v⟩

def payload (v : Value) : Reading (Payload Expr) := readPayload (fun w => read w.1) (whole v)

def listOf {α : Type} (read : Value → Reading α) (v : Value) : Reading (List α) :=
  Reading.list v fun w => read w.1

def exprField (name : String) (spellings : List String) : Field := .of name spellings read explicit

def optionField (name : String) (spellings : List String) : Field :=
  .nullable name spellings read explicitOption

def stringField (name : String) (spellings : List String) : Field :=
  .of name spellings Reading.string .str

def payloadField (name : String) (spellings : List String) : Field :=
  .of name spellings payload explicitPayload

def payloadOptionField (name : String) (spellings : List String) : Field :=
  .nullable name spellings payload explicitPayloadOption

def operandsField : Field :=
  .of "operands" operands (listOf read) fun es => .arr (explicitAll es)

def casesField : Field :=
  .of "cases" ["cases"] (listOf fun v => readCase (fun w => read w.1) (whole v)) fun cases =>
    .arr (explicitCases cases)

def countField (name : String) : Field := .nullable name [name] Reading.count (orNull .int)

def selectField : Field := .nullable "select" ["select"] (listOf Reading.string) (orNull names)

def sortField : Field :=
  .nullable "sort" ["sort"] (fun v => Reading.fields v (Reading.word sortOrders ·.1))
    (orNull sortForm)

/-- The text of a query. -/
def queryText : Expr → Value
  | .jsonPath text _ => .str text
  | _ => .null

def queryField : Field := .of "path" ["path"] (fun v => readQuery (whole v)) queryText

def pathField : Field := .of "path" ["path"] (fun v => readPath (whole v)) (.str ·.text)

def templateField : Field :=
  .of "template" ["template"] (fun v => readTemplate (whole v)) (.str ·.text)

def schemaField : Field :=
  .of "schema_" ["schema", "schema_"] (fun v => readSchema (whole v)) schemaForm

def strictField : Field := .nullable "strict" ["strict"] Reading.boolean (orNull .bool)

def objectsField : Field :=
  .of "objects" ["objects"] (listOf payload) fun objects => .arr (explicitPayloads objects)

def constantField : Field := .of "value" ["value"] .done id

/-- Two operands or more. -/
def manyField : Field :=
  .of "operands" ["operands"] (fun v => readOperands (fun w => read w.1) (whole v)) fun p =>
    .arr (explicit p.1 :: explicit p.2.1 :: explicitAll p.2.2)

def twoField : Field :=
  .of "operands" ["operands"] (fun v => readTwo (fun w => read w.1) (whole v)) fun p =>
    .arr [explicit p.1, explicit p.2]

end Expr

namespace Operator

open Expr

/-- The fields of an operator besides its tag. -/
def ownFields : Operator → List Field
  | .literal => [constantField]
  | .get => [pathField]
  | .jsonPath => [queryField]
  | .branch =>
    [exprField "cond" ["cond", "condition"], exprField "then" ["then"],
      optionField "else_" ["else", "else_"]]
  | .switch => [exprField "on" ["on"], casesField, optionField "default" ["default"]]
  | .map =>
    [exprField "items" items, stringField "as_" element, exprField "body" ["body", "do"]]
  | .filter =>
    [exprField "items" items, stringField "as_" element,
      exprField "predicate" ["predicate", "where"]]
  | .reduce =>
    [exprField "items" items, stringField "as_" element,
      stringField "acc" ["acc", "accumulator"], exprField "initial" ["initial"],
      exprField "body" ["body", "with"]]
  | .dbQuery =>
    [stringField "collection" ["collection"], payloadOptionField "filter" ["filter"],
      selectField, countField "limit", countField "skip", sortField]
  | .dbInsert => [stringField "collection" ["collection"], payloadField "document" ["document"]]
  | .dbUpdate =>
    [stringField "collection" ["collection"], payloadField "filter" ["filter"],
      payloadField "update" ["update", "patch"]]
  | .dbDelete => [stringField "collection" ["collection"], payloadField "filter" ["filter"]]
  | .merge => [objectsField]
  | .present => [exprField "value" ["value"]]
  | .now => []
  | .renderString => [templateField, payloadOptionField "vars" ["vars"]]
  | .earlyReturn => [payloadField "value" ["value"]]
  | .validate =>
    [exprField "value" ["value", "data"], schemaField, strictField,
      optionField "on_fail" ["onFail", "on_fail"]]
  | .compare _ => [exprField "left" ["left"], exprField "right" ["right"]]
  | .and => [operandsField]
  | .or => [operandsField]
  | .not => [exprField "operand" ["operand"]]
  | .variadic _ => [manyField]
  | .dyadic _ => [twoField]

/-- All fields of an operator. Arguments may give the tag as well. -/
def fields (op : Operator) : List Field := stringField "op" ["op"] :: op.ownFields

end Operator

namespace Expr

/-! ## Fields that are read -/

section Fills

variable {n : Nat} {α : Type} {args : Arguments n} {name : String} {spellings : List String}
  {read : Value → Reading α} {read' : Smaller n → Reading α}

/-- What is given for the field is read into this value. -/
def Fills (args : Arguments n) (f : Field) (w : Value) : Prop :=
  ∀ v, args.find? f.spellings = some v → f.read v.1 = .done w

theorem required_fills {form : α → Value} (hread : ∀ v, read' v = read v.1) :
    Yields (fun a => Fills args (.of name spellings read form) (form a))
      (args.required spellings read') := by
  refine .under fun a ha v hv => ?_
  have hv : args.find? spellings = some v := hv
  rw [hv] at ha
  show (read v.1).map form = .done (form a)
  rw [← hread, show read' v = .done a from ha]
  rfl

theorem optional_fills {form : α → Value} {absent : α} (hread : ∀ v, read' v = read v.1) :
    Yields (fun a => Fills args (.of name spellings read form) (form a))
      (args.optional spellings absent read') := by
  intro a ha v hv
  have hv : args.find? spellings = some v := hv
  rw [Arguments.optional, hv] at ha
  show (read v.1).map form = .done (form a)
  rw [← hread, show read' v = .done a from under_eq_done.mp ha]
  rfl

theorem nullable_fills {form : Option α → Value} (hnone : form none = .null)
    (hread : ∀ v, read' v = read v.1) :
    Yields (fun o => Fills args (.nullable name spellings read form) (form o))
      (args.nullable spellings read') := by
  intro o ho v hv
  have hv : args.find? spellings = some v := hv
  rw [Arguments.nullable, Arguments.optional, hv] at ho
  have ho := under_eq_done.mp ho
  obtain ⟨v, hsize⟩ := v
  cases v with
  | null =>
      cases ho
      exact congrArg Reading.done hnone.symm
  | _ =>
      obtain ⟨a, ha, rfl⟩ := map_eq_done.mp ho
      show (read _).map _ = .done _
      rw [← hread ⟨_, hsize⟩, ha]
      rfl

end Fills

/-! ### The kinds of fields -/

section Kinds

variable {n : Nat} {args : Arguments n} {spellings : List String} (name : String)

theorem expr_fills :
    Yields (fun e => Fills args (exprField name spellings) (explicit e))
      (args.required spellings fun w => read w.1) :=
  required_fills fun _ => rfl

theorem option_fills :
    Yields (fun o => Fills args (optionField name spellings) (explicitOption o))
      (args.nullable spellings fun w => read w.1) :=
  nullable_fills rfl fun _ => rfl

theorem payload_fills :
    Yields (fun p => Fills args (payloadField name spellings) (explicitPayload p))
      (args.required spellings (readPayload fun w => read w.1)) :=
  required_fills fun _ => rfl

theorem payloadOption_fills :
    Yields (fun o => Fills args (payloadOptionField name spellings) (explicitPayloadOption o))
      (args.nullable spellings (readPayload fun w => read w.1)) :=
  nullable_fills rfl fun _ => rfl

theorem string_fills :
    Yields (fun s => Fills args (stringField name spellings) (.str s))
      (args.required spellings (Reading.string ·.1)) :=
  required_fills fun _ => rfl

theorem stringDefault_fills {absent : String} :
    Yields (fun s => Fills args (stringField name spellings) (.str s))
      (args.optional spellings absent (Reading.string ·.1)) :=
  optional_fills fun _ => rfl

theorem count_fills :
    Yields (fun o => Fills args (countField name) (orNull .int o))
      (args.nullable [name] (Reading.count ·.1)) :=
  nullable_fills rfl fun _ => rfl

end Kinds

/-! ### Fields of one operator -/

section Single

variable {n : Nat} {args : Arguments n}

theorem constant_fills :
    Yields (Fills args constantField) (args.optional ["value"] .null (.done ·.1)) :=
  optional_fills fun _ => rfl

theorem path_fills :
    Yields (fun p => Fills args pathField (.str p.text)) (args.required ["path"] readPath) :=
  required_fills fun _ => rfl

theorem query_fills :
    Yields (fun e => Fills args queryField (queryText e)) (args.required ["path"] readQuery) :=
  required_fills fun _ => rfl

theorem template_fills :
    Yields (fun t => Fills args templateField (.str t.text))
      (args.required ["template"] readTemplate) :=
  required_fills fun _ => rfl

theorem schema_fills :
    Yields (fun s => Fills args schemaField (schemaForm s))
      (args.required ["schema", "schema_"] readSchema) :=
  required_fills fun _ => rfl

theorem strict_fills :
    Yields (fun o => Fills args strictField (orNull .bool o))
      (args.nullable ["strict"] (Reading.boolean ·.1)) :=
  nullable_fills rfl fun _ => rfl

theorem select_fills :
    Yields (fun o => Fills args selectField (orNull names o))
      (args.nullable ["select"] (readList (Reading.string ·.1))) :=
  nullable_fills rfl fun _ => rfl

theorem sort_fills :
    Yields (fun o => Fills args sortField (orNull sortForm o))
      (args.nullable ["sort"] fun v => Reading.fields v.1 (Reading.word sortOrders ·.1)) :=
  nullable_fills rfl fun _ => rfl

/-- The bound on the size of a case does not matter. -/
theorem readCase_whole (v : Smaller n) :
    readCase (fun w => read w.1) v = readCase (fun w => read w.1) (whole v.1) := by
  have hitems : (whole v.1).1.items? = v.1.items? := rfl
  have hargs : Arguments.of? (whole v.1).1 = Arguments.of? v.1 := rfl
  unfold readCase
  rw [hitems, hargs]
  cases Arguments.of? v.1 <;> rcases v.1.items? with _ | _ | ⟨_, _ | ⟨_, _ | _⟩⟩ <;> rfl

theorem cases_fills :
    Yields (fun cs => Fills args casesField (.arr (explicitCases cs)))
      (args.required ["cases"] (readList (readCase fun w => read w.1))) :=
  required_fills fun _ => congrArg (Reading.list _) (funext fun _ => readCase_whole _)

theorem objects_fills :
    Yields (fun ps => Fills args objectsField (.arr (explicitPayloads ps)))
      (args.required ["objects"] (readList (readPayload fun w => read w.1))) :=
  required_fills fun _ => rfl

theorem operands_fills :
    Yields (fun es => Fills args operandsField (.arr (explicitAll es)))
      (args.required operands (readList fun w => read w.1)) :=
  required_fills fun _ => rfl

theorem many_fills :
    Yields (fun p => Fills args manyField
        (.arr (explicit p.1 :: explicit p.2.1 :: explicitAll p.2.2)))
      (args.required ["operands"] (readOperands fun w => read w.1)) :=
  required_fills fun _ => rfl

theorem readTwo_whole (v : Smaller n) :
    readTwo (fun w => read w.1) v = readTwo (fun w => read w.1) (whole v.1) := by
  have hitems : (whole v.1).1.items? = v.1.items? := rfl
  unfold readTwo
  rw [hitems]
  cases v.1.items? <;> rfl

theorem two_fills :
    Yields (fun p => Fills args twoField (.arr [explicit p.1, explicit p.2]))
      (args.required ["operands"] (readTwo fun w => read w.1)) :=
  required_fills readTwo_whole

end Single

/-! ### All fields of an operator -/

/-- The expression holds, under the name of each of the fields, what is given
for the field. -/
def Holds (args : Arguments n) (fs : List Field) (e : Expr) : Prop :=
  ∀ f ∈ fs, ∃ w, e.explicit.field? f.name = some w ∧ Fills args f w

namespace Holds

variable {n : Nat} {args : Arguments n} {e : Expr}

theorem nil : Holds args [] e := fun _ h => nomatch h

theorem cons {f : Field} {fs : List Field} {w : Value} (hw : e.explicit.field? f.name = some w)
    (hf : Fills args f w) (hfs : Holds args fs e) : Holds args (f :: fs) e :=
  List.forall_mem_cons.mpr ⟨⟨w, hw, hf⟩, hfs⟩

end Holds

section Operators

variable {n : Nat}

theorem readOptions_holds (args : Arguments n) (collection : String)
    (criteria : Option (Payload Expr)) :
    Yields (fun options =>
        Holds args [selectField, countField "limit", countField "skip", sortField]
          (.dbQuery collection criteria options))
      (readOptions args) := by
  refine .seq (.seq (.seq (.fmap select_fills ?_) (count_fills "limit")) (count_fills "skip"))
    sort_fills
  intro select hselect limit hlimit skip hskip sort hsort
  exact .cons rfl hselect (.cons rfl hlimit (.cons rfl hskip (.cons rfl hsort .nil)))

theorem foldOf_holds {args : Arguments n} {items initial body : Expr} {element accumulator : String}
    (h : Holds args (Operator.ownFields .reduce) (.reduce items element accumulator initial body)) :
    Yields (Holds args (Operator.ownFields .reduce))
      (foldOf items element accumulator initial body) := by
  unfold foldOf
  split
  · exact .refused
  · exact .done h

/-- What is read from arguments holds all that is given in them for the fields
of its operator. -/
theorem ofArguments_holds (op : Operator) (args : Arguments n) :
    Yields (Holds args op.ownFields) (ofArguments op args fun w => read w.1) := by
  cases op with
  | literal => exact .seqLeft (.fmap constant_fills fun _ h => .cons rfl h .nil)
  | get => exact .seqLeft (.fmap path_fills fun _ h => .cons rfl h .nil)
  | jsonPath =>
      refine .seqLeft fun e he => ?_
      have hfills := query_fills e he
      have hoperator := Yields.required readQuery_operator e he
      cases e with
      | jsonPath text segments => exact .cons rfl hfills .nil
      | _ => cases hoperator
  | branch =>
      refine .seqLeft (.seq (.seq (.fmap (expr_fills "cond") ?_) (expr_fills "then"))
        (option_fills "else_"))
      intro condition hcondition yes hyes no hno
      exact .cons rfl hcondition (.cons rfl hyes (.cons rfl hno .nil))
  | switch =>
      refine .seqLeft (.seq (.seq (.fmap (expr_fills "on") ?_) cases_fills)
        (option_fills "default"))
      intro subject hsubject cases hcases fallback hfallback
      exact .cons rfl hsubject (.cons rfl hcases (.cons rfl hfallback .nil))
  | map =>
      refine .seqLeft (.seq (.seq (.fmap (expr_fills "items") ?_) (stringDefault_fills "as_"))
        (expr_fills "body"))
      intro items hitems element helement body hbody
      exact .cons rfl hitems (.cons rfl helement (.cons rfl hbody .nil))
  | filter =>
      refine .seqLeft (.seq (.seq (.fmap (expr_fills "items") ?_) (stringDefault_fills "as_"))
        (expr_fills "predicate"))
      intro items hitems element helement predicate hpredicate
      exact .cons rfl hitems (.cons rfl helement (.cons rfl hpredicate .nil))
  | reduce =>
      refine .andThen (P := fun p => Holds args _ (.reduce p.1 p.2.1 p.2.2.1 p.2.2.2.1 p.2.2.2.2))
        (.seqLeft (.seq (.seq (.seq (.seq (.fmap (expr_fills "items") ?_)
          (stringDefault_fills "as_")) (stringDefault_fills "acc")) (expr_fills "initial"))
          (expr_fills "body"))) fun _ h => foldOf_holds h
      intro items hitems element helement accumulator haccumulator initial hinitial body hbody
      exact .cons rfl hitems (.cons rfl helement (.cons rfl haccumulator
        (.cons rfl hinitial (.cons rfl hbody .nil))))
  | dbQuery =>
      -- The options are read as one, for whatever stands before them.
      have hoptions : Yields (fun options => ∀ collection criteria, Holds args _
          (.dbQuery collection criteria options)) (readOptions args) :=
        fun options h collection criteria => readOptions_holds args collection criteria options h
      refine .seqLeft (.seq (.seq (.fmap (string_fills "collection") ?_)
        (payloadOption_fills "filter")) hoptions)
      intro collection hcollection criteria hcriteria options hoptions
      exact .cons rfl hcollection (.cons rfl hcriteria (hoptions collection criteria))
  | dbInsert =>
      refine .seqLeft (.seq (.fmap (string_fills "collection") ?_) (payload_fills "document"))
      intro collection hcollection document hdocument
      exact .cons rfl hcollection (.cons rfl hdocument .nil)
  | dbUpdate =>
      refine .seqLeft (.seq (.seq (.fmap (string_fills "collection") ?_) (payload_fills "filter"))
        (payload_fills "update"))
      intro collection hcollection criteria hcriteria update hupdate
      exact .cons rfl hcollection (.cons rfl hcriteria (.cons rfl hupdate .nil))
  | dbDelete =>
      refine .seqLeft (.seq (.fmap (string_fills "collection") ?_) (payload_fills "filter"))
      intro collection hcollection criteria hcriteria
      exact .cons rfl hcollection (.cons rfl hcriteria .nil)
  | merge => exact .seqLeft (.fmap objects_fills fun _ h => .cons rfl h .nil)
  | present => exact .seqLeft (.fmap (expr_fills "value") fun _ h => .cons rfl h .nil)
  | now => exact .fmap .any fun _ _ => .nil
  | renderString =>
      refine .seqLeft (.seq (.fmap template_fills ?_) (payloadOption_fills "vars"))
      intro template htemplate vars hvars
      exact .cons rfl htemplate (.cons rfl hvars .nil)
  | earlyReturn => exact .seqLeft (.fmap (payload_fills "value") fun _ h => .cons rfl h .nil)
  | validate =>
      refine .seqLeft (.seq (.seq (.seq (.fmap (expr_fills "value") ?_) schema_fills) strict_fills)
        (option_fills "on_fail"))
      intro value hvalue schema hschema strict hstrict onFail honFail
      exact .cons rfl hvalue (.cons rfl hschema (.cons rfl hstrict (.cons rfl honFail .nil)))
  | compare c =>
      refine .seqLeft (.seq (.fmap (expr_fills "left") ?_) (expr_fills "right"))
      intro left hleft right hright
      exact .cons rfl hleft (.cons rfl hright .nil)
  | and => exact .seqLeft (.fmap operands_fills fun _ h => .cons rfl h .nil)
  | or => exact .seqLeft (.fmap operands_fills fun _ h => .cons rfl h .nil)
  | not => exact .seqLeft (.fmap (expr_fills "operand") fun _ h => .cons rfl h .nil)
  | variadic o => exact .seqLeft (.fmap many_fills fun _ h => .cons rfl h .nil)
  | dyadic o => exact .seqLeft (.fmap two_fills fun _ h => .cons rfl h .nil)

end Operators

end Expr

end Conduit
