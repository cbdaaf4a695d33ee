import Conduit.Expr.Basic

/-!
# Names in an expression

The names that an expression reads although nothing around them binds
them, and the named schemas that it refers to. Both are found without
evaluating anything: literals are not looked into, and an operator that
binds names of its own binds them only for the part that sees them.
-/

namespace Conduit

namespace Expr

/-- The name that a query starts from, if it starts from one. -/
def queryHead {P : Type} : List (Segment P) → List String
  | .step (.field name) :: _ => [name]
  | _ => []

/-- The names among `names` that are not bound. -/
def without (bound names : List String) : List String :=
  names.filter fun name => !bound.contains name

/-! ## Unbound names -/

mutual

/-- The names that an expression reads and that are not among `bound`, in
the order in which they are written, each time that they are. -/
def unbound (bound : List String) : Expr → List String
  | .literal _ => []
  | .get path => without bound [path.head]
  | .jsonPath _ segments => without bound (queryHead segments)
  | .branch condition yes no =>
    unbound bound condition ++ unbound bound yes ++ unboundOption bound no
  | .switch subject cases fallback =>
    unbound bound subject ++ unboundCases bound cases ++ unboundOption bound fallback
  | .map items element body => unbound bound items ++ unbound (element :: bound) body
  | .filter items element predicate => unbound bound items ++ unbound (element :: bound) predicate
  | .reduce items element accumulator initial body =>
    unbound bound items ++ unbound bound initial ++
      unbound (element :: accumulator :: bound) body
  | .dbQuery _ criteria _ => unboundPayloadOption bound criteria
  | .dbInsert _ document => unboundPayload bound document
  | .dbUpdate _ criteria update => unboundPayload bound criteria ++ unboundPayload bound update
  | .dbDelete _ criteria => unboundPayload bound criteria
  | .merge objects => unboundPayloads bound objects
  | .present value => unbound bound value
  | .now => []
  | .renderString template vars =>
    match vars with
    | none => without bound (template.paths.map DotPath.head)
    | some p => unboundPayload bound p
  | .earlyReturn value => unboundPayload bound value
  | .validate value _ _ onFail => unbound bound value ++ unboundOption ("errors" :: bound) onFail
  | .compare _ left right => unbound bound left ++ unbound bound right
  | .and operands => unboundAll bound operands
  | .or operands => unboundAll bound operands
  | .not operand => unbound bound operand
  | .variadic _ first second rest =>
    unbound bound first ++ unbound bound second ++ unboundAll bound rest
  | .dyadic _ left right => unbound bound left ++ unbound bound right

def unboundOption (bound : List String) : Option Expr → List String
  | none => []
  | some e => unbound bound e

def unboundAll (bound : List String) : List Expr → List String
  | [] => []
  | e :: rest => unbound bound e ++ unboundAll bound rest

/-- What a case waits for is a literal and reads nothing. -/
def unboundCases (bound : List String) : List (Case Expr) → List String
  | [] => []
  | ⟨_, result⟩ :: rest => unbound bound result ++ unboundCases bound rest

def unboundFields (bound : List String) : List (String × Expr) → List String
  | [] => []
  | (_, e) :: rest => unbound bound e ++ unboundFields bound rest

def unboundPayload (bound : List String) : Payload Expr → List String
  | .expr e => unbound bound e
  | .fields fs => unboundFields bound fs

def unboundPayloadOption (bound : List String) : Option (Payload Expr) → List String
  | none => []
  | some p => unboundPayload bound p

def unboundPayloads (bound : List String) : List (Payload Expr) → List String
  | [] => []
  | p :: rest => unboundPayload bound p ++ unboundPayloads bound rest

end

/-! ## Named schemas -/

def schemaName : SchemaRef → List String
  | .named name => [name]
  | .inline _ => []

mutual

/-- The named schemas that an expression refers to, in order, each time
that it does. An operator's own one comes before those of its parts. -/
def schemaNames : Expr → List String
  | .literal _ => []
  | .get _ => []
  | .jsonPath _ _ => []
  | .branch condition yes no =>
    schemaNames condition ++ schemaNames yes ++ schemaNamesOption no
  | .switch subject cases fallback =>
    schemaNames subject ++ schemaNamesCases cases ++ schemaNamesOption fallback
  | .map items _ body => schemaNames items ++ schemaNames body
  | .filter items _ predicate => schemaNames items ++ schemaNames predicate
  | .reduce items _ _ initial body =>
    schemaNames items ++ schemaNames initial ++ schemaNames body
  | .dbQuery _ criteria _ => schemaNamesPayloadOption criteria
  | .dbInsert _ document => schemaNamesPayload document
  | .dbUpdate _ criteria update => schemaNamesPayload criteria ++ schemaNamesPayload update
  | .dbDelete _ criteria => schemaNamesPayload criteria
  | .merge objects => schemaNamesPayloads objects
  | .present value => schemaNames value
  | .now => []
  | .renderString _ vars => schemaNamesPayloadOption vars
  | .earlyReturn value => schemaNamesPayload value
  | .validate value schema _ onFail =>
    schemaName schema ++ schemaNames value ++ schemaNamesOption onFail
  | .compare _ left right => schemaNames left ++ schemaNames right
  | .and operands => schemaNamesAll operands
  | .or operands => schemaNamesAll operands
  | .not operand => schemaNames operand
  | .variadic _ first second rest =>
    schemaNames first ++ schemaNames second ++ schemaNamesAll rest
  | .dyadic _ left right => schemaNames left ++ schemaNames right

def schemaNamesOption : Option Expr → List String
  | none => []
  | some e => schemaNames e

def schemaNamesAll : List Expr → List String
  | [] => []
  | e :: rest => schemaNames e ++ schemaNamesAll rest

def schemaNamesCases : List (Case Expr) → List String
  | [] => []
  | ⟨_, result⟩ :: rest => schemaNames result ++ schemaNamesCases rest

def schemaNamesFields : List (String × Expr) → List String
  | [] => []
  | (_, e) :: rest => schemaNames e ++ schemaNamesFields rest

def schemaNamesPayload : Payload Expr → List String
  | .expr e => schemaNames e
  | .fields fs => schemaNamesFields fs

def schemaNamesPayloadOption : Option (Payload Expr) → List String
  | none => []
  | some p => schemaNamesPayload p

def schemaNamesPayloads : List (Payload Expr) → List String
  | [] => []
  | p :: rest => schemaNamesPayload p ++ schemaNamesPayloads rest

end

end Expr

end Conduit
