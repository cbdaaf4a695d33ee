import Conduit.Proofs.Expr.Reader

/-!
# Terms

A term is an expression with nothing taken for granted: its paths, queries
and templates are mere texts, an arithmetic operator stands over any number
of operands, and where an expression belongs there may be something that is
none. Every expression is kept as such a term. What the reader checks is said
here of terms; an expression that was read is a term all of whose nodes pass.
-/

namespace Conduit

inductive Term where
  | literal (v : Value)
  | get (text : String)
  | jsonPath (text : String)
  | branch (condition yes : Term) (no : Option Term)
  | switch (subject : Term) (cases : List (Case Term)) (fallback : Option Term)
  | map (items : Term) (element : String) (body : Term)
  | filter (items : Term) (element : String) (predicate : Term)
  | reduce (items : Term) (element accumulator : String) (initial body : Term)
  | dbQuery (collection : String) (criteria : Option (Payload Term)) (options : QueryOptions)
  | dbInsert (collection : String) (document : Payload Term)
  | dbUpdate (collection : String) (criteria update : Payload Term)
  | dbDelete (collection : String) (criteria : Payload Term)
  | merge (objects : List (Payload Term))
  | present (value : Term)
  | now
  | renderString (text : String) (vars : Option (Payload Term))
  | earlyReturn (value : Payload Term)
  | validate (value : Term) (schema : SchemaRef) (strict : Option Bool) (onFail : Option Term)
  /-- Two operands under an operator that should be a comparison. -/
  | compare (op : Operator) (left right : Term)
  | and (operands : List Term)
  | or (operands : List Term)
  | not (operand : Term)
  /-- Operands under an operator that should be one of arithmetic. -/
  | arithmetic (op : Operator) (operands : List Term)
  /-- A value that is no expression at all. -/
  | foreign (v : Value)

/-! ## Expressions as terms -/

namespace Expr

mutual

/-- The term that an expression is kept as. -/
def term : Expr → Term
  | .literal v => .literal v
  | .get path => .get path.text
  | .jsonPath text _ => .jsonPath text
  | .branch condition yes no => .branch (term condition) (term yes) (termOption no)
  | .switch subject cases fallback =>
    .switch (term subject) (termCases cases) (termOption fallback)
  | .map items element body => .map (term items) element (term body)
  | .filter items element predicate => .filter (term items) element (term predicate)
  | .reduce items element accumulator initial body =>
    .reduce (term items) element accumulator (term initial) (term body)
  | .dbQuery collection criteria options =>
    .dbQuery collection (termPayloadOption criteria) options
  | .dbInsert collection document => .dbInsert collection (termPayload document)
  | .dbUpdate collection criteria update =>
    .dbUpdate collection (termPayload criteria) (termPayload update)
  | .dbDelete collection criteria => .dbDelete collection (termPayload criteria)
  | .merge objects => .merge (termPayloads objects)
  | .present value => .present (term value)
  | .now => .now
  | .renderString template vars => .renderString template.text (termPayloadOption vars)
  | .earlyReturn value => .earlyReturn (termPayload value)
  | .validate value schema strict onFail =>
    .validate (term value) schema strict (termOption onFail)
  | .compare op left right => .compare (.compare op) (term left) (term right)
  | .and operands => .and (termAll operands)
  | .or operands => .or (termAll operands)
  | .not operand => .not (term operand)
  | .variadic op first second rest =>
    .arithmetic (.variadic op) (term first :: term second :: termAll rest)
  | .dyadic op left right => .arithmetic (.dyadic op) [term left, term right]

def termOption : Option Expr → Option Term
  | none => none
  | some e => some (term e)

def termAll : List Expr → List Term
  | [] => []
  | e :: rest => term e :: termAll rest

def termCases : List (Case Expr) → List (Case Term)
  | [] => []
  | ⟨subject, result⟩ :: rest => ⟨subject, term result⟩ :: termCases rest

def termFields : List (String × Expr) → List (String × Term)
  | [] => []
  | (name, e) :: rest => (name, term e) :: termFields rest

def termPayload : Payload Expr → Payload Term
  | .expr e => .expr (term e)
  | .fields fs => .fields (termFields fs)

def termPayloadOption : Option (Payload Expr) → Option (Payload Term)
  | none => none
  | some p => some (termPayload p)

def termPayloads : List (Payload Expr) → List (Payload Term)
  | [] => []
  | p :: rest => termPayload p :: termPayloads rest

end

end Expr

/-! ## Nodes -/

namespace Term

mutual

/-- A term and all terms inside it. -/
def nodes : Term → List Term
  | t@(.literal _) => [t]
  | t@(.get _) => [t]
  | t@(.jsonPath _) => [t]
  | t@(.branch condition yes no) => t :: (nodes condition ++ nodes yes ++ nodesOption no)
  | t@(.switch subject cases fallback) =>
    t :: (nodes subject ++ nodesCases cases ++ nodesOption fallback)
  | t@(.map items _ body) => t :: (nodes items ++ nodes body)
  | t@(.filter items _ predicate) => t :: (nodes items ++ nodes predicate)
  | t@(.reduce items _ _ initial body) => t :: (nodes items ++ nodes initial ++ nodes body)
  | t@(.dbQuery _ criteria _) => t :: nodesPayloadOption criteria
  | t@(.dbInsert _ document) => t :: nodesPayload document
  | t@(.dbUpdate _ criteria update) => t :: (nodesPayload criteria ++ nodesPayload update)
  | t@(.dbDelete _ criteria) => t :: nodesPayload criteria
  | t@(.merge objects) => t :: nodesPayloads objects
  | t@(.present value) => t :: nodes value
  | t@(.now) => [t]
  | t@(.renderString _ vars) => t :: nodesPayloadOption vars
  | t@(.earlyReturn value) => t :: nodesPayload value
  | t@(.validate value _ _ onFail) => t :: (nodes value ++ nodesOption onFail)
  | t@(.compare _ left right) => t :: (nodes left ++ nodes right)
  | t@(.and operands) => t :: nodesAll operands
  | t@(.or operands) => t :: nodesAll operands
  | t@(.not operand) => t :: nodes operand
  | t@(.arithmetic _ operands) => t :: nodesAll operands
  | t@(.foreign _) => [t]

def nodesOption : Option Term → List Term
  | none => []
  | some t => nodes t

def nodesAll : List Term → List Term
  | [] => []
  | t :: rest => nodes t ++ nodesAll rest

def nodesCases : List (Case Term) → List Term
  | [] => []
  | ⟨_, result⟩ :: rest => nodes result ++ nodesCases rest

def nodesFields : List (String × Term) → List Term
  | [] => []
  | (_, t) :: rest => nodes t ++ nodesFields rest

def nodesPayload : Payload Term → List Term
  | .expr t => nodes t
  | .fields fs => nodesFields fs

def nodesPayloadOption : Option (Payload Term) → List Term
  | none => []
  | some p => nodesPayload p

def nodesPayloads : List (Payload Term) → List Term
  | [] => []
  | p :: rest => nodesPayload p ++ nodesPayloads rest

end

/-- What is checked of one node: its path starts with a name, its query and
its template are well formed, its operator gets the operands that it takes. -/
def IsChecked : Term → Prop
  | .get text => ∃ path name, DotPath.parse text = .ok path ∧ path.steps.head? = some (.field name)
  | .jsonPath text =>
    ∃ segments, Query.parse text = .ok segments ∧ ∀ s ∈ segments, s.Rereads
  | .reduce _ element accumulator _ _ => element ≠ accumulator
  | .dbQuery _ _ options => options.IsChecked
  | .renderString text _ => ∃ template, Template.parse text = .ok template
  | .validate _ schema _ _ => schema.IsChecked
  | .compare op _ _ => ∃ c, op = .compare c
  | .arithmetic op operands =>
    (∃ o, op = .variadic o ∧ 2 ≤ operands.length) ∨ ∃ o, op = .dyadic o ∧ operands.length = 2
  | .foreign _ => False
  | _ => True

end Term

namespace Expr

theorem isChecked_term {e : Expr} (h : e.IsChecked) : e.term.IsChecked := by
  cases e with
  | get path => exact ⟨path, path.head, h, rfl⟩
  | jsonPath text segments => exact ⟨segments, h, Query.parse_rereads h⟩
  | reduce items element accumulator initial body => exact h
  | dbQuery collection criteria options => exact h
  | renderString template vars => exact ⟨template, h⟩
  | validate value schema strict onFail => exact h
  | compare op left right => exact ⟨op, rfl⟩
  | variadic op first second rest =>
      refine .inl ⟨op, rfl, ?_⟩
      simp
  | dyadic op left right => exact .inr ⟨op, rfl, rfl⟩
  | _ => trivial

mutual

/-- The nodes of an expression's term are the terms of its parts. -/
theorem nodes_term : ∀ (bound : List String) (e : Expr),
    e.term.nodes = (parts bound e).map (·.expr.term)
  | _, .literal _ => rfl
  | _, .get _ => rfl
  | _, .jsonPath _ _ => rfl
  | bound, .branch condition yes no => by
      simp [term, Term.nodes, parts, nodes_term bound condition, nodes_term bound yes,
        nodesOption_term bound no]
  | bound, .switch subject cases fallback => by
      simp [term, Term.nodes, parts, nodes_term bound subject, nodesCases_term bound cases,
        nodesOption_term bound fallback]
  | bound, .map items element body => by
      simp [term, Term.nodes, parts, nodes_term bound items, nodes_term (element :: bound) body]
  | bound, .filter items element predicate => by
      simp [term, Term.nodes, parts, nodes_term bound items,
        nodes_term (element :: bound) predicate]
  | bound, .reduce items element accumulator initial body => by
      simp [term, Term.nodes, parts, nodes_term bound items, nodes_term bound initial,
        nodes_term (element :: accumulator :: bound) body]
  | bound, .dbQuery _ criteria _ => by
      simp [term, Term.nodes, parts, nodesPayloadOption_term bound criteria]
  | bound, .dbInsert _ document => by
      simp [term, Term.nodes, parts, nodesPayload_term bound document]
  | bound, .dbUpdate _ criteria update => by
      simp [term, Term.nodes, parts, nodesPayload_term bound criteria,
        nodesPayload_term bound update]
  | bound, .dbDelete _ criteria => by
      simp [term, Term.nodes, parts, nodesPayload_term bound criteria]
  | bound, .merge objects => by
      simp [term, Term.nodes, parts, nodesPayloads_term bound objects]
  | bound, .present value => by simp [term, Term.nodes, parts, nodes_term bound value]
  | _, .now => rfl
  | bound, .renderString _ vars => by
      simp [term, Term.nodes, parts, nodesPayloadOption_term bound vars]
  | bound, .earlyReturn value => by
      simp [term, Term.nodes, parts, nodesPayload_term bound value]
  | bound, .validate value _ _ onFail => by
      simp [term, Term.nodes, parts, nodes_term bound value,
        nodesOption_term ("errors" :: bound) onFail]
  | bound, .compare _ left right => by
      simp [term, Term.nodes, parts, nodes_term bound left, nodes_term bound right]
  | bound, .and operands => by simp [term, Term.nodes, parts, nodesAll_term bound operands]
  | bound, .or operands => by simp [term, Term.nodes, parts, nodesAll_term bound operands]
  | bound, .not operand => by simp [term, Term.nodes, parts, nodes_term bound operand]
  | bound, .variadic _ first second rest => by
      simp [term, Term.nodes, Term.nodesAll, parts, nodes_term bound first,
        nodes_term bound second, nodesAll_term bound rest]
  | bound, .dyadic _ left right => by
      simp [term, Term.nodes, Term.nodesAll, parts, nodes_term bound left, nodes_term bound right]

theorem nodesOption_term : ∀ (bound : List String) (o : Option Expr),
    Term.nodesOption (termOption o) = (partsOption bound o).map (·.expr.term)
  | _, none => rfl
  | bound, some e => nodes_term bound e

theorem nodesAll_term : ∀ (bound : List String) (es : List Expr),
    Term.nodesAll (termAll es) = (partsAll bound es).map (·.expr.term)
  | _, [] => rfl
  | bound, e :: rest => by
      simp [termAll, Term.nodesAll, partsAll, nodes_term bound e, nodesAll_term bound rest]

theorem nodesCases_term : ∀ (bound : List String) (cases : List (Case Expr)),
    Term.nodesCases (termCases cases) = (partsCases bound cases).map (·.expr.term)
  | _, [] => rfl
  | bound, ⟨_, result⟩ :: rest => by
      simp [termCases, Term.nodesCases, partsCases, nodes_term bound result,
        nodesCases_term bound rest]

theorem nodesFields_term : ∀ (bound : List String) (fs : List (String × Expr)),
    Term.nodesFields (termFields fs) = (partsFields bound fs).map (·.expr.term)
  | _, [] => rfl
  | bound, (_, e) :: rest => by
      simp [termFields, Term.nodesFields, partsFields, nodes_term bound e,
        nodesFields_term bound rest]

theorem nodesPayload_term : ∀ (bound : List String) (p : Payload Expr),
    Term.nodesPayload (termPayload p) = (partsPayload bound p).map (·.expr.term)
  | bound, .expr e => nodes_term bound e
  | bound, .fields fs => nodesFields_term bound fs

theorem nodesPayloadOption_term : ∀ (bound : List String) (o : Option (Payload Expr)),
    Term.nodesPayloadOption (termPayloadOption o) = (partsPayloadOption bound o).map (·.expr.term)
  | _, none => rfl
  | bound, some p => nodesPayload_term bound p

theorem nodesPayloads_term : ∀ (bound : List String) (ps : List (Payload Expr)),
    Term.nodesPayloads (termPayloads ps) = (partsPayloads bound ps).map (·.expr.term)
  | _, [] => rfl
  | bound, p :: rest => by
      simp [termPayloads, Term.nodesPayloads, partsPayloads, nodesPayload_term bound p,
        nodesPayloads_term bound rest]

end

/-- All nodes of the term of an expression that was read pass their checks. -/
theorem nodes_isChecked {v : Value} {e : Expr} (h : read v = .done e) :
    ∀ t ∈ e.term.nodes, t.IsChecked := by
  intro t ht
  rw [nodes_term [] e] at ht
  obtain ⟨p, hp, rfl⟩ := List.mem_map.mp ht
  exact isChecked_term (read_yields v e h [] p hp)

end Expr

end Conduit
