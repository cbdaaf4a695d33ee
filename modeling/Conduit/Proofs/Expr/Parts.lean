import Conduit.Expr.Names

/-!
# The parts of an expression

All expressions that stand inside one, itself first and each with the
names that the operators around it bind. Whatever is collected by a walk
over an expression is collected part by part: the unbound names and the
schema names of an expression are those of its parts, one after another.
A claim about a walk is thereby a claim about single parts.
-/

namespace Conduit

namespace Expr

/-- Whether an expression does not itself render a template with tags. -/
def isPlain : Expr → Bool
  | .renderString template _ => template.isPlain
  | _ => true

/-- An expression at its place inside another one. -/
structure Part where
  /-- The names that are bound at that place. -/
  bound : List String
  expr : Expr

namespace Part

/-- The names that the expression itself reads, its operands left aside, and
that nothing binds. -/
def unbound : Part → List String
  | ⟨bound, .get path⟩ => without bound [path.head]
  | ⟨bound, .jsonPath _ segments⟩ => without bound (queryHead segments)
  | ⟨bound, .renderString template none⟩ => without bound (template.paths.map DotPath.head)
  | _ => []

/-- The schema that the expression itself names. -/
def schemaNames : Part → List String
  | ⟨_, .validate _ schema _ _⟩ => schemaName schema
  | _ => []

end Part

theorem mem_of_without_eq_nil {bound names : List String} (h : without bound names = [])
    {name : String} (hname : name ∈ names) : name ∈ bound := by
  have := List.filter_eq_nil_iff.mp h name hname
  simpa using this

mutual

/-- The parts of an expression that stands where `bound` are bound. -/
def parts (bound : List String) : Expr → List Part
  | e@(.literal _) => [⟨bound, e⟩]
  | e@(.get _) => [⟨bound, e⟩]
  | e@(.jsonPath _ _) => [⟨bound, e⟩]
  | e@(.branch condition yes no) =>
    ⟨bound, e⟩ :: (parts bound condition ++ parts bound yes ++ partsOption bound no)
  | e@(.switch subject cases fallback) =>
    ⟨bound, e⟩ :: (parts bound subject ++ partsCases bound cases ++ partsOption bound fallback)
  | e@(.map items element body) =>
    ⟨bound, e⟩ :: (parts bound items ++ parts (element :: bound) body)
  | e@(.filter items element predicate) =>
    ⟨bound, e⟩ :: (parts bound items ++ parts (element :: bound) predicate)
  | e@(.reduce items element accumulator initial body) =>
    ⟨bound, e⟩ :: (parts bound items ++ parts bound initial ++
      parts (element :: accumulator :: bound) body)
  | e@(.dbQuery _ criteria _) => ⟨bound, e⟩ :: partsPayloadOption bound criteria
  | e@(.dbInsert _ document) => ⟨bound, e⟩ :: partsPayload bound document
  | e@(.dbUpdate _ criteria update) =>
    ⟨bound, e⟩ :: (partsPayload bound criteria ++ partsPayload bound update)
  | e@(.dbDelete _ criteria) => ⟨bound, e⟩ :: partsPayload bound criteria
  | e@(.merge objects) => ⟨bound, e⟩ :: partsPayloads bound objects
  | e@(.present value) => ⟨bound, e⟩ :: parts bound value
  | e@(.now) => [⟨bound, e⟩]
  | e@(.renderString _ vars) => ⟨bound, e⟩ :: partsPayloadOption bound vars
  | e@(.earlyReturn value) => ⟨bound, e⟩ :: partsPayload bound value
  | e@(.validate value _ _ onFail) =>
    ⟨bound, e⟩ :: (parts bound value ++ partsOption ("errors" :: bound) onFail)
  | e@(.compare _ left right) => ⟨bound, e⟩ :: (parts bound left ++ parts bound right)
  | e@(.and operands) => ⟨bound, e⟩ :: partsAll bound operands
  | e@(.or operands) => ⟨bound, e⟩ :: partsAll bound operands
  | e@(.not operand) => ⟨bound, e⟩ :: parts bound operand
  | e@(.variadic _ first second rest) =>
    ⟨bound, e⟩ :: (parts bound first ++ parts bound second ++ partsAll bound rest)
  | e@(.dyadic _ left right) => ⟨bound, e⟩ :: (parts bound left ++ parts bound right)

def partsOption (bound : List String) : Option Expr → List Part
  | none => []
  | some e => parts bound e

def partsAll (bound : List String) : List Expr → List Part
  | [] => []
  | e :: rest => parts bound e ++ partsAll bound rest

def partsCases (bound : List String) : List (Case Expr) → List Part
  | [] => []
  | ⟨_, result⟩ :: rest => parts bound result ++ partsCases bound rest

def partsFields (bound : List String) : List (String × Expr) → List Part
  | [] => []
  | (_, e) :: rest => parts bound e ++ partsFields bound rest

def partsPayload (bound : List String) : Payload Expr → List Part
  | .expr e => parts bound e
  | .fields fs => partsFields bound fs

def partsPayloadOption (bound : List String) : Option (Payload Expr) → List Part
  | none => []
  | some p => partsPayload bound p

def partsPayloads (bound : List String) : List (Payload Expr) → List Part
  | [] => []
  | p :: rest => partsPayload bound p ++ partsPayloads bound rest

end

/-- An expression is the first of its parts. -/
theorem self_mem_parts (bound : List String) (e : Expr) : ⟨bound, e⟩ ∈ parts bound e := by
  cases e <;> exact List.mem_cons_self

/-! ## Walks as collections over parts -/

mutual

theorem unbound_eq_flatMap : ∀ (bound : List String) (e : Expr),
    unbound bound e = (parts bound e).flatMap Part.unbound
  | _, .literal _ => by simp [unbound, parts, Part.unbound]
  | _, .get _ => by simp [unbound, parts, Part.unbound]
  | _, .jsonPath _ _ => by simp [unbound, parts, Part.unbound]
  | bound, .branch condition yes no => by
      simp [unbound, parts, Part.unbound, unbound_eq_flatMap bound condition,
        unbound_eq_flatMap bound yes, unboundOption_eq_flatMap bound no]
  | bound, .switch subject cases fallback => by
      simp [unbound, parts, Part.unbound, unbound_eq_flatMap bound subject,
        unboundCases_eq_flatMap bound cases, unboundOption_eq_flatMap bound fallback]
  | bound, .map items element body => by
      simp [unbound, parts, Part.unbound, unbound_eq_flatMap bound items,
        unbound_eq_flatMap (element :: bound) body]
  | bound, .filter items element predicate => by
      simp [unbound, parts, Part.unbound, unbound_eq_flatMap bound items,
        unbound_eq_flatMap (element :: bound) predicate]
  | bound, .reduce items element accumulator initial body => by
      simp [unbound, parts, Part.unbound, unbound_eq_flatMap bound items,
        unbound_eq_flatMap bound initial, unbound_eq_flatMap (element :: accumulator :: bound) body]
  | bound, .dbQuery _ criteria _ => by
      simp [unbound, parts, Part.unbound, unboundPayloadOption_eq_flatMap bound criteria]
  | bound, .dbInsert _ document => by
      simp [unbound, parts, Part.unbound, unboundPayload_eq_flatMap bound document]
  | bound, .dbUpdate _ criteria update => by
      simp [unbound, parts, Part.unbound, unboundPayload_eq_flatMap bound criteria,
        unboundPayload_eq_flatMap bound update]
  | bound, .dbDelete _ criteria => by
      simp [unbound, parts, Part.unbound, unboundPayload_eq_flatMap bound criteria]
  | bound, .merge objects => by
      simp [unbound, parts, Part.unbound, unboundPayloads_eq_flatMap bound objects]
  | bound, .present value => by
      simp [unbound, parts, Part.unbound, unbound_eq_flatMap bound value]
  | _, .now => by simp [unbound, parts, Part.unbound]
  | _, .renderString _ none => by simp [unbound, parts, Part.unbound, partsPayloadOption]
  | bound, .renderString _ (some p) => by
      simp [unbound, parts, Part.unbound, partsPayloadOption, unboundPayload_eq_flatMap bound p]
  | bound, .earlyReturn value => by
      simp [unbound, parts, Part.unbound, unboundPayload_eq_flatMap bound value]
  | bound, .validate value _ _ onFail => by
      simp [unbound, parts, Part.unbound, unbound_eq_flatMap bound value,
        unboundOption_eq_flatMap ("errors" :: bound) onFail]
  | bound, .compare _ left right => by
      simp [unbound, parts, Part.unbound, unbound_eq_flatMap bound left,
        unbound_eq_flatMap bound right]
  | bound, .and operands => by
      simp [unbound, parts, Part.unbound, unboundAll_eq_flatMap bound operands]
  | bound, .or operands => by
      simp [unbound, parts, Part.unbound, unboundAll_eq_flatMap bound operands]
  | bound, .not operand => by
      simp [unbound, parts, Part.unbound, unbound_eq_flatMap bound operand]
  | bound, .variadic _ first second rest => by
      simp [unbound, parts, Part.unbound, unbound_eq_flatMap bound first,
        unbound_eq_flatMap bound second, unboundAll_eq_flatMap bound rest]
  | bound, .dyadic _ left right => by
      simp [unbound, parts, Part.unbound, unbound_eq_flatMap bound left,
        unbound_eq_flatMap bound right]

theorem unboundOption_eq_flatMap : ∀ (bound : List String) (o : Option Expr),
    unboundOption bound o = (partsOption bound o).flatMap Part.unbound
  | _, none => rfl
  | bound, some e => unbound_eq_flatMap bound e

theorem unboundAll_eq_flatMap : ∀ (bound : List String) (es : List Expr),
    unboundAll bound es = (partsAll bound es).flatMap Part.unbound
  | _, [] => rfl
  | bound, e :: rest => by
      simp [unboundAll, partsAll, unbound_eq_flatMap bound e, unboundAll_eq_flatMap bound rest]

theorem unboundCases_eq_flatMap : ∀ (bound : List String) (cases : List (Case Expr)),
    unboundCases bound cases = (partsCases bound cases).flatMap Part.unbound
  | _, [] => rfl
  | bound, ⟨_, result⟩ :: rest => by
      simp [unboundCases, partsCases, unbound_eq_flatMap bound result,
        unboundCases_eq_flatMap bound rest]

theorem unboundFields_eq_flatMap : ∀ (bound : List String) (fs : List (String × Expr)),
    unboundFields bound fs = (partsFields bound fs).flatMap Part.unbound
  | _, [] => rfl
  | bound, (_, e) :: rest => by
      simp [unboundFields, partsFields, unbound_eq_flatMap bound e,
        unboundFields_eq_flatMap bound rest]

theorem unboundPayload_eq_flatMap : ∀ (bound : List String) (p : Payload Expr),
    unboundPayload bound p = (partsPayload bound p).flatMap Part.unbound
  | bound, .expr e => unbound_eq_flatMap bound e
  | bound, .fields fs => unboundFields_eq_flatMap bound fs

theorem unboundPayloadOption_eq_flatMap : ∀ (bound : List String) (o : Option (Payload Expr)),
    unboundPayloadOption bound o = (partsPayloadOption bound o).flatMap Part.unbound
  | _, none => rfl
  | bound, some p => unboundPayload_eq_flatMap bound p

theorem unboundPayloads_eq_flatMap : ∀ (bound : List String) (ps : List (Payload Expr)),
    unboundPayloads bound ps = (partsPayloads bound ps).flatMap Part.unbound
  | _, [] => rfl
  | bound, p :: rest => by
      simp [unboundPayloads, partsPayloads, unboundPayload_eq_flatMap bound p,
        unboundPayloads_eq_flatMap bound rest]

end

mutual

theorem schemaNames_eq_flatMap : ∀ (bound : List String) (e : Expr),
    schemaNames e = (parts bound e).flatMap Part.schemaNames
  | _, .literal _ => by simp [schemaNames, parts, Part.schemaNames]
  | _, .get _ => by simp [schemaNames, parts, Part.schemaNames]
  | _, .jsonPath _ _ => by simp [schemaNames, parts, Part.schemaNames]
  | bound, .branch condition yes no => by
      simp [schemaNames, parts, Part.schemaNames, schemaNames_eq_flatMap bound condition,
        schemaNames_eq_flatMap bound yes, schemaNamesOption_eq_flatMap bound no]
  | bound, .switch subject cases fallback => by
      simp [schemaNames, parts, Part.schemaNames, schemaNames_eq_flatMap bound subject,
        schemaNamesCases_eq_flatMap bound cases, schemaNamesOption_eq_flatMap bound fallback]
  | bound, .map items element body => by
      simp [schemaNames, parts, Part.schemaNames, schemaNames_eq_flatMap bound items,
        schemaNames_eq_flatMap (element :: bound) body]
  | bound, .filter items element predicate => by
      simp [schemaNames, parts, Part.schemaNames, schemaNames_eq_flatMap bound items,
        schemaNames_eq_flatMap (element :: bound) predicate]
  | bound, .reduce items element accumulator initial body => by
      simp [schemaNames, parts, Part.schemaNames, schemaNames_eq_flatMap bound items,
        schemaNames_eq_flatMap bound initial,
        schemaNames_eq_flatMap (element :: accumulator :: bound) body]
  | bound, .dbQuery _ criteria _ => by
      simp [schemaNames, parts, Part.schemaNames,
        schemaNamesPayloadOption_eq_flatMap bound criteria]
  | bound, .dbInsert _ document => by
      simp [schemaNames, parts, Part.schemaNames, schemaNamesPayload_eq_flatMap bound document]
  | bound, .dbUpdate _ criteria update => by
      simp [schemaNames, parts, Part.schemaNames, schemaNamesPayload_eq_flatMap bound criteria,
        schemaNamesPayload_eq_flatMap bound update]
  | bound, .dbDelete _ criteria => by
      simp [schemaNames, parts, Part.schemaNames, schemaNamesPayload_eq_flatMap bound criteria]
  | bound, .merge objects => by
      simp [schemaNames, parts, Part.schemaNames, schemaNamesPayloads_eq_flatMap bound objects]
  | bound, .present value => by
      simp [schemaNames, parts, Part.schemaNames, schemaNames_eq_flatMap bound value]
  | _, .now => by simp [schemaNames, parts, Part.schemaNames]
  | _, .renderString _ none => by
      simp [schemaNames, parts, Part.schemaNames, partsPayloadOption, schemaNamesPayloadOption]
  | bound, .renderString _ (some p) => by
      simp [schemaNames, parts, Part.schemaNames, partsPayloadOption, schemaNamesPayloadOption,
        schemaNamesPayload_eq_flatMap bound p]
  | bound, .earlyReturn value => by
      simp [schemaNames, parts, Part.schemaNames, schemaNamesPayload_eq_flatMap bound value]
  | bound, .validate value _ _ onFail => by
      simp [schemaNames, parts, Part.schemaNames, schemaNames_eq_flatMap bound value,
        schemaNamesOption_eq_flatMap ("errors" :: bound) onFail]
  | bound, .compare _ left right => by
      simp [schemaNames, parts, Part.schemaNames, schemaNames_eq_flatMap bound left,
        schemaNames_eq_flatMap bound right]
  | bound, .and operands => by
      simp [schemaNames, parts, Part.schemaNames, schemaNamesAll_eq_flatMap bound operands]
  | bound, .or operands => by
      simp [schemaNames, parts, Part.schemaNames, schemaNamesAll_eq_flatMap bound operands]
  | bound, .not operand => by
      simp [schemaNames, parts, Part.schemaNames, schemaNames_eq_flatMap bound operand]
  | bound, .variadic _ first second rest => by
      simp [schemaNames, parts, Part.schemaNames, schemaNames_eq_flatMap bound first,
        schemaNames_eq_flatMap bound second, schemaNamesAll_eq_flatMap bound rest]
  | bound, .dyadic _ left right => by
      simp [schemaNames, parts, Part.schemaNames, schemaNames_eq_flatMap bound left,
        schemaNames_eq_flatMap bound right]

theorem schemaNamesOption_eq_flatMap : ∀ (bound : List String) (o : Option Expr),
    schemaNamesOption o = (partsOption bound o).flatMap Part.schemaNames
  | _, none => rfl
  | bound, some e => schemaNames_eq_flatMap bound e

theorem schemaNamesAll_eq_flatMap : ∀ (bound : List String) (es : List Expr),
    schemaNamesAll es = (partsAll bound es).flatMap Part.schemaNames
  | _, [] => rfl
  | bound, e :: rest => by
      simp [schemaNamesAll, partsAll, schemaNames_eq_flatMap bound e,
        schemaNamesAll_eq_flatMap bound rest]

theorem schemaNamesCases_eq_flatMap : ∀ (bound : List String) (cases : List (Case Expr)),
    schemaNamesCases cases = (partsCases bound cases).flatMap Part.schemaNames
  | _, [] => rfl
  | bound, ⟨_, result⟩ :: rest => by
      simp [schemaNamesCases, partsCases, schemaNames_eq_flatMap bound result,
        schemaNamesCases_eq_flatMap bound rest]

theorem schemaNamesFields_eq_flatMap : ∀ (bound : List String) (fs : List (String × Expr)),
    schemaNamesFields fs = (partsFields bound fs).flatMap Part.schemaNames
  | _, [] => rfl
  | bound, (_, e) :: rest => by
      simp [schemaNamesFields, partsFields, schemaNames_eq_flatMap bound e,
        schemaNamesFields_eq_flatMap bound rest]

theorem schemaNamesPayload_eq_flatMap : ∀ (bound : List String) (p : Payload Expr),
    schemaNamesPayload p = (partsPayload bound p).flatMap Part.schemaNames
  | bound, .expr e => schemaNames_eq_flatMap bound e
  | bound, .fields fs => schemaNamesFields_eq_flatMap bound fs

theorem schemaNamesPayloadOption_eq_flatMap : ∀ (bound : List String) (o : Option (Payload Expr)),
    schemaNamesPayloadOption o = (partsPayloadOption bound o).flatMap Part.schemaNames
  | _, none => rfl
  | bound, some p => schemaNamesPayload_eq_flatMap bound p

theorem schemaNamesPayloads_eq_flatMap : ∀ (bound : List String) (ps : List (Payload Expr)),
    schemaNamesPayloads ps = (partsPayloads bound ps).flatMap Part.schemaNames
  | _, [] => rfl
  | bound, p :: rest => by
      simp [schemaNamesPayloads, partsPayloads, schemaNamesPayload_eq_flatMap bound p,
        schemaNamesPayloads_eq_flatMap bound rest]

end

end Expr

end Conduit
