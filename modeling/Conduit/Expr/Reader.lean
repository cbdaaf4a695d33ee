import Conduit.Expr.Basic
import Conduit.Expr.Shape
import Conduit.Query.Reader
import Conduit.Reading.Scalar
import Conduit.Schema.Check

/-!
# Reading an expression

An operator object is an expression of that operator; any other value is
a literal. All issues of an expression are found, each at its place.
Everything that a path, a query, a template or a schema can be wrong in is
found here, not when the expression is evaluated.
-/

namespace Conduit

namespace Expr

variable {n : Nat}

/-! ## Parts -/

/-- A field map: an object that is no operator object. -/
def isFieldMap (v : Value) : Bool := v.entries?.isSome && (Operator.ofObject? v).isNone

def readPayload (read : Smaller n → Reading Expr) (v : Smaller n) : Reading (Payload Expr) :=
  if isFieldMap v.1 then
    ((Reading.fields v.1 fun w => read (w.widen (Nat.le_of_lt v.2))).map .fields).under
      (.key "fields")
  else ((read v).map .expr).under (.key "expr")

def readList {α : Type} (read : Smaller n → Reading α) (v : Smaller n) : Reading (List α) :=
  Reading.list v.1 fun w => read (w.widen (Nat.le_of_lt v.2))

/-- A case, given as a pair or with its two fields named. -/
def readCase (read : Smaller n → Reading Expr) (v : Smaller n) : Reading (Case Expr) :=
  match v.1.items? with
  | some [subject, result] =>
    ((read (result.widen (Nat.le_of_lt v.2))).under (.key "then")).map (⟨subject.1, ·⟩)
  | _ =>
    match Arguments.of? v.1 with
    | some args =>
      Case.mk <$> args.optional ["when"] .null (.done ·.1)
        <*> args.required ["then"] (fun w => read (w.widen (Nat.le_of_lt v.2)))
        <* args.closed [["when"], ["then"]]
    | none => .complain (.notPart "SwitchCase")

def readPath (v : Smaller n) : Reading DotPath :=
  (Reading.string v.1).andThen fun s => .ofExcept PathError.message (DotPath.parse s)

/-- A query. A filter in it whose path is none has its issue one level
deeper. -/
def readQuery (v : Smaller n) : Reading Expr :=
  (Reading.string v.1).andThen fun s =>
    match Query.parse s with
    | .ok segments => .done (.jsonPath s segments)
    | .error (.filterPath e) => (Reading.complain (.broken e.message)).under (.key "path")
    | .error e => .complain (.broken e.message)

def readTemplate (v : Smaller n) : Reading Template :=
  (Reading.string v.1).andThen fun s => .ofExcept Template.Error.message (Template.parse s)

def invalidSchema : String := "Invalid JSON Schema"

/-- A schema, which is an object, or its name. Anything else is told off
on both counts. -/
def readSchema (v : Smaller n) : Reading SchemaRef :=
  match v.1 with
  | .str name => .done (.named name)
  | w =>
    match Reading.fields w (.done ·.1) with
    | .done schema =>
      if Schema.isValid schema then .done (.inline schema)
      else .complain (.broken invalidSchema)
    | .refused issues =>
      let inner := issues.map fun issue =>
        { issue with place := .key "dict[str,any]" :: issue.place }
      .refused (inner ++ [⟨[.key "str"], .notString⟩])

def sortOrders : List (String × SortOrder) := [("asc", .asc), ("desc", .desc)]

/-- Operands of which there have to be a number of. -/
def readOperands (read : Smaller n → Reading Expr) (v : Smaller n) :
    Reading (Expr × Expr × List Expr) :=
  (readList read v).andThen fun
    | first :: second :: rest => .done (first, second, rest)
    | operands => .complain (.tooFew 2 operands.length)

/-- Exactly two operands. Too many are told off before any is read. -/
def readTwo (read : Smaller n → Reading Expr) (v : Smaller n) : Reading (Expr × Expr) :=
  match v.1.items? with
  | some xs =>
    if 2 < xs.length then .complain (.tooMany 2 xs.length)
    else (readOperands read v).map fun p => (p.1, p.2.1)
  | none => .complain .notList

/-! ## Operators -/

/-- The elements of a collection operator. -/
def items : List String := ["items", "over"]

def element : List String := ["as", "as_"]

def operands : List String := ["operands", "conditions"]

def readElement (args : Arguments n) : Reading String :=
  args.optional element "item" (Reading.string ·.1)

def readCollection (args : Arguments n) : Reading String :=
  args.required ["collection"] (Reading.string ·.1)

def readOptions (args : Arguments n) : Reading QueryOptions :=
  QueryOptions.mk <$> args.nullable ["select"] (readList (Reading.string ·.1))
    <*> args.nullable ["limit"] (Reading.count ·.1)
    <*> args.nullable ["skip"] (Reading.count ·.1)
    <*> args.nullable ["sort"] (fun v => Reading.fields v.1 (Reading.word sortOrders ·.1))

/-- The fold of a list, once its two names are known to differ. -/
def foldOf (items : Expr) (element accumulator : String) (initial body : Expr) : Reading Expr :=
  if element = accumulator then
    .complain (.broken ("$reduce binds '" ++ element ++ "' as both element and accumulator"))
  else .done (.reduce items element accumulator initial body)

def ofArguments (op : Operator) (args : Arguments n) (read : Smaller n → Reading Expr) :
    Reading Expr :=
  let closed (fields : List (List String)) := args.closed (["op"] :: fields)
  let payload := readPayload read
  match op with
  | .literal => literal <$> args.optional ["value"] .null (.done ·.1) <* closed [["value"]]
  | .get => get <$> args.required ["path"] readPath <* closed [["path"]]
  | .jsonPath => args.required ["path"] readQuery <* closed [["path"]]
  | .branch =>
    branch <$> args.required ["cond", "condition"] read <*> args.required ["then"] read
      <*> args.nullable ["else", "else_"] read
      <* closed [["cond", "condition"], ["then"], ["else", "else_"]]
  | .switch =>
    switch <$> args.required ["on"] read <*> args.required ["cases"] (readList (readCase read))
      <*> args.nullable ["default"] read
      <* closed [["on"], ["cases"], ["default"]]
  | .map =>
    map <$> args.required items read <*> readElement args <*> args.required ["body", "do"] read
      <* closed [items, element, ["body", "do"]]
  | .filter =>
    filter <$> args.required items read <*> readElement args
      <*> args.required ["predicate", "where"] read
      <* closed [items, element, ["predicate", "where"]]
  | .reduce =>
    Reading.andThen
      ((fun items element accumulator initial body =>
          (items, element, accumulator, initial, body))
        <$> args.required items read <*> readElement args
        <*> args.optional ["acc", "accumulator"] "accumulator" (Reading.string ·.1)
        <*> args.required ["initial"] read <*> args.required ["body", "with"] read
        <* closed [items, element, ["acc", "accumulator"], ["initial"], ["body", "with"]])
      fun (items, element, accumulator, initial, body) =>
        foldOf items element accumulator initial body
  | .dbQuery =>
    dbQuery <$> readCollection args <*> args.nullable ["filter"] payload <*> readOptions args
      <* closed [["collection"], ["filter"], ["select"], ["limit"], ["skip"], ["sort"]]
  | .dbInsert =>
    dbInsert <$> readCollection args <*> args.required ["document"] payload
      <* closed [["collection"], ["document"]]
  | .dbUpdate =>
    dbUpdate <$> readCollection args <*> args.required ["filter"] payload
      <*> args.required ["update", "patch"] payload
      <* closed [["collection"], ["filter"], ["update", "patch"]]
  | .dbDelete =>
    dbDelete <$> readCollection args <*> args.required ["filter"] payload
      <* closed [["collection"], ["filter"]]
  | .merge => merge <$> args.required ["objects"] (readList payload) <* closed [["objects"]]
  | .present => present <$> args.required ["value"] read <* closed [["value"]]
  | .now => (fun _ => now) <$> closed []
  | .renderString =>
    renderString <$> args.required ["template"] readTemplate <*> args.nullable ["vars"] payload
      <* closed [["template"], ["vars"]]
  | .earlyReturn => earlyReturn <$> args.required ["value"] payload <* closed [["value"]]
  | .validate =>
    validate <$> args.required ["value", "data"] read
      <*> args.required ["schema", "schema_"] readSchema
      <*> args.nullable ["strict"] (Reading.boolean ·.1)
      <*> args.nullable ["onFail", "on_fail"] read
      <* closed [["value", "data"], ["schema", "schema_"], ["strict"], ["onFail", "on_fail"]]
  | .compare c =>
    compare c <$> args.required ["left"] read <*> args.required ["right"] read
      <* closed [["left"], ["right"]]
  | .and => and <$> args.required operands (readList read) <* closed [operands]
  | .or => or <$> args.required operands (readList read) <* closed [operands]
  | .not => not <$> args.required ["operand"] read <* closed [["operand"]]
  | .variadic op =>
    (fun p => variadic op p.1 p.2.1 p.2.2) <$> args.required ["operands"] (readOperands read)
      <* closed [["operands"]]
  | .dyadic op =>
    (fun p => dyadic op p.1 p.2) <$> args.required ["operands"] (readTwo read)
      <* closed [["operands"]]

/-- A tag as a message shows it. -/
def tagText : Value → String
  | .str s => s
  | .date iso => iso
  | v => (v.display.toOption).getD ""

/-- The operator that arguments are for: a field `op` among them has the
last word over the key that they stand under. -/
def operatorOf (op : Operator) (args : Arguments n) : Except String Operator :=
  match args.get? "op" with
  | none => .ok op
  | some tag =>
    match tag.1 with
    | .str s => (Operator.ofName? s).elim (.error s) .ok
    | v => .error (tagText v)

def read (v : Value) : Reading Expr :=
  match _h : Operator.ofObject? v with
  | none => .done (.literal v)
  | some (op, arg) =>
    match Arguments.ofShape op arg with
    | .error e => .complain (.broken e.message)
    | .ok args =>
      match operatorOf op args with
      | .error tag => .complain (.unknownTag tag (Operator.all.map Operator.name))
      | .ok op => (ofArguments op args fun w => read w.1).under (.key op.name)
termination_by v.size
decreasing_by
  have := Operator.size_ofObject _h
  have := w.2
  omega

end Expr

end Conduit
