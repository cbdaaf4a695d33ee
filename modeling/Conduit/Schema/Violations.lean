import Conduit.Schema.Reference
import Conduit.Schema.Rule

/-!
# Violations

What is wrong with a value by a schema: the keywords of the schema are
asked in the order in which they stand, and those that hold schemas ask
these about the value or about its parts. References may lead round, so
schemas ask each other only down to a fixed depth.

This stands for the iteration of errors in jsonschema.
-/

namespace Conduit

namespace Schema

/-- What is known where a schema is asked: its draft and its site. -/
structure Position where
  draft : Draft
  site : Site

/-- Asks a schema, given with the position it stands in, about a value. -/
abbrev Ask := Position → Value → Value → Findings

open Findings (clean require gather atPart)

variable (ask : Ask) (pos : Position)

/-! ## Asking other schemas -/

def isAccepted (schema v : Value) : Except Failure Bool := (ask pos schema v).isClean

def filterAccepted (schema : Value) : List Value → Except Failure (List Value)
  | [] => .ok []
  | v :: rest => do
    let accepted ← isAccepted ask pos schema v
    let more ← filterAccepted schema rest
    .ok (if accepted then v :: more else more)

/-- The schemas of a list that accept a value. -/
def acceptors (v : Value) : List Value → Except Failure (List Value)
  | [] => .ok []
  | schema :: rest => do
    let accepted ← isAccepted ask pos schema v
    let more ← acceptors v rest
    .ok (if accepted then schema :: more else more)

/-- The first schema of a list that accepts a value, with those behind it.
Each that is asked has to come to its end. -/
def firstAcceptor (v : Value) : List Value → Except Failure (Option (Value × List Value))
  | [] => .ok none
  | schema :: rest => do
    if (← (ask pos schema v).all).isEmpty then .ok (some (schema, rest))
    else firstAcceptor v rest

def listOf (v : Value) : List Value := (itemsOf? v).getD []

def namedOf (v : Value) : Fields Value := (fieldsOf? v).getD []

/-- What is unexpected, with the verb for it. -/
def unexpected (xs : List Value) : Except Failure String := do
  .ok ((← displayAll xs) ++ if xs.length = 1 then " was unexpected" else " were unexpected")

def sortedNames (names : List String) : List Value :=
  (names.mergeSort fun a b => !(b < a)).map .str

/-! ## Objects -/

def propertiesRule (schemas v : Value) : Findings :=
  let fields := namedOf v
  gather (fun p => match fields.get? p.1 with
    | some w => atPart (.key p.1) (ask pos p.2 w)
    | none => clean) (namedOf schemas)

def patternPropertiesRule (schemas v : Value) : Findings :=
  gather (fun p => gather (fun field =>
    if matchesText p.1 field.1 then atPart (.key field.1) (ask pos p.2 field.2) else clean)
    (namedOf v)) (namedOf schemas)

/-- The fields of a value that neither a name nor a pattern of the schema
covers; the patterns are taken as one. -/
def additional (schema v : Value) : Fields Value :=
  let known := namedOf ((schema.field? "properties").getD .null)
  let patterns := "|".intercalate (namedOf ((schema.field? "patternProperties").getD .null)).names
  (namedOf v).filter fun field =>
    !known.contains field.1 && !(!patterns.isEmpty && matchesText patterns field.1)

def additionalMessage (schema : Value) (names : List String) : Except Failure String := do
  match schema.field? "patternProperties" with
  | some patterns =>
    .ok ((← displayAll (sortedNames names)) ++
      (if names.length = 1 then " does" else " do") ++ " not match any of the regexes: " ++
      (← displayAll (sortedNames (namedOf patterns).names)))
  | none =>
    .ok ("Additional properties are not allowed (" ++ (← unexpected (sortedNames names)) ++ ")")

def additionalPropertiesRule (schema bound v : Value) : Findings :=
  let extras := additional schema v
  match bound with
  | .bool true => clean
  | .bool false => require extras.isEmpty (additionalMessage schema extras.names)
  | bound => gather (fun field => atPart (.key field.1) (ask pos bound field.2)) extras

def propertyNamesRule (bound v : Value) : Findings :=
  gather (fun field => ask pos bound (.str field.1)) (namedOf v)

/-- Schemas or names that an object has to go by because it has a field. -/
def dependenciesRule (dependencies v : Value) : Findings :=
  let fields := namedOf v
  gather (fun p =>
    if !fields.contains p.1 then clean
    else match p.2 with
      | .arr names => .ofViolations (dependencyNames fields p.1 names)
      | schema => ask pos schema v) (namedOf dependencies)

/-! ## Arrays -/

/-- A schema asked about items, which stand from `start` on. -/
def askItems (schema : Value) (start : Nat) (xs : List Value) : Findings :=
  gather (fun p => atPart (.position p.1) (ask pos schema p.2))
    (xs.mapIdx fun i x => (start + i, x))

/-- Schemas asked about the items at their positions. -/
def askByPosition (schemas xs : List Value) : Findings :=
  gather (fun p => atPart (.position p.1) (ask pos p.2.1 p.2.2))
    ((schemas.zip xs).mapIdx fun i p => (i, p))

def itemsRule (schema bound : Value) (xs : List Value) : Findings :=
  let count := (listOf ((schema.field? "prefixItems").getD .null)).length
  let rest := xs.drop count
  match bound with
  | .bool false =>
    require rest.isEmpty (do
      let shown ← match rest with
        | [x] => display x
        | rest => display (.arr rest)
      .ok ("Expected at most " ++ toString count ++ (if count = 1 then " item" else " items") ++
        " but found " ++ toString rest.length ++ " extra: " ++ shown))
  | bound => askItems ask pos bound count rest

def positionalItemsRule (bound : Value) (xs : List Value) : Findings :=
  match bound with
  | .arr schemas => askByPosition ask pos schemas xs
  | bound => askItems ask pos bound 0 xs

def additionalItemsRule (schema bound : Value) (xs : List Value) : Findings :=
  match schema.field? "items" with
  | some (.arr schemas) =>
    let rest := xs.drop schemas.length
    match bound with
    | .bool true => clean
    | .bool false =>
      require rest.isEmpty (do
        .ok ("Additional items are not allowed (" ++ (← unexpected rest) ++ ")"))
    | bound => askItems ask pos bound schemas.length rest
  | _ => clean

def numberText (n : Number) : Except Failure String := (n.text .plain).mapError .limit

/-- How many items have to be accepted, and how many may be. -/
def containsRule (schema bound : Value) (xs : List Value) : Findings := .after do
  let accepted := (← filterAccepted ask pos bound xs).length
  let least := match schema.field? "minContains" with
    | some (.number n) => n
    | _ => .int 1
  let most? := match schema.field? "maxContains" with
    | some (.number n) => some n
    | _ => none
  match most?.filter fun most => isLess most (.int accepted) with
  | some most =>
    .ok (require false do
      .ok ("Too many items match the given schema (expected at most " ++
        (← numberText most) ++ ")"))
  | none =>
    .ok (require (!isLess (.int accepted) least) do
      if accepted = 0 then about (.arr xs) " does not contain items matching the given schema"
      else .ok ("Too few items match the given schema (expected at least " ++
        (← numberText least) ++ " but only " ++ toString accepted ++ " matched)"))

def containsAnyRule (bound : Value) (xs : List Value) : Findings := .after do
  let accepted ← filterAccepted ask pos bound xs
  .ok (require (!accepted.isEmpty) do
    .ok ("None of " ++ (← display (.arr xs)) ++ " are valid under the given schema"))

/-! ## Combinations -/

def noneAccepts (v : Value) : Findings :=
  require false (about v " is not valid under any of the given schemas")

def anyOfRule (schemas v : Value) : Findings := .after do
  match ← firstAcceptor ask pos v (listOf schemas) with
  | some _ => .ok clean
  | none => .ok (noneAccepts v)

/-- Exactly one schema has to accept; of several, the first is named last. -/
def oneOfRule (schemas v : Value) : Findings := .after do
  match ← firstAcceptor ask pos v (listOf schemas) with
  | none => .ok (noneAccepts v)
  | some (first, rest) =>
    let more ← acceptors ask pos v rest
    .ok (require more.isEmpty do
      .ok ((← display v) ++ " is valid under each of " ++ (← displayAll (more ++ [first]))))

def notRule (bound v : Value) : Findings := .after do
  let accepted ← isAccepted ask pos bound v
  .ok (require (!accepted) (aboutBound v " should not be valid under " bound))

def ifRule (schema bound v : Value) : Findings := .after do
  let branch := if ← isAccepted ask pos bound v then "then" else "else"
  match schema.field? branch with
  | some s => .ok (ask pos s v)
  | none => .ok clean

def referenceRule (bound v : Value) : Findings :=
  match bound with
  | .str reference => .after do
    let (schema, site) ← followReference pos.draft pos.site reference
    .ok (ask { pos with site } schema v)
  | _ => clean

/-! ## What is evaluated

The items and the fields that other keywords of a schema have dealt
with. `deeper` finds those that another schema has dealt with. -/

/-- Those that the schemas which apply to the value as a whole deal with. -/
def inPlace {α : Type} (deeper : Position → Value → Except Failure (List α)) (schema v : Value) :
    Except Failure (List α) := do
  let referred ← ["$ref", "$dynamicRef"].mapM fun keyword =>
    match schema.field? keyword with
    | some (.str reference) => do
      let (target, site) ← followReference pos.draft pos.site reference
      deeper { pos with site } target
    | _ => .ok []
  let combined ← ["allOf", "oneOf", "anyOf"].mapM fun keyword => do
    let accepting ← acceptors ask pos v (listOf ((schema.field? keyword).getD .null))
    (accepting.mapM (deeper pos)).map List.flatten
  let conditional ← match schema.field? "if" with
    | some condition => do
      if ← isAccepted ask pos condition v then
        let own ← deeper pos condition
        let more ← match schema.field? "then" with
          | some s => deeper pos s
          | none => .ok []
        .ok (own ++ more)
      else match schema.field? "else" with
        | some s => deeper pos s
        | none => .ok []
    | none => .ok []
  .ok (referred.flatten ++ combined.flatten ++ conditional)

/-- The positions of items that a schema has dealt with. -/
def evaluatedItems (xs : List Value) : Nat → Position → Value → Except Failure (List Nat)
  | 0, _, _ => .ok []
  | fuel + 1, pos, schema =>
    if (schema.field? "items").isSome then .ok (List.range xs.length)
    else do
      let leading := List.range (listOf ((schema.field? "prefixItems").getD .null)).length
      let accepted ← ["contains", "unevaluatedItems"].mapM fun keyword =>
        match schema.field? keyword with
        | some s => do
          let flags ← xs.mapM (isAccepted ask pos s)
          .ok ((List.range xs.length).filter fun i => (flags[i]?).getD false)
        | none => .ok []
      let others ← inPlace ask pos (evaluatedItems xs fuel) schema (.arr xs)
      .ok (leading ++ accepted.flatten ++ others)

/-- The names of fields that a schema has dealt with. -/
def evaluatedFields (v : Value) : Nat → Position → Value → Except Failure (List String)
  | 0, _, _ => .ok []
  | fuel + 1, pos, schema => do
    let fields := namedOf v
    let named := (namedOf ((schema.field? "properties").getD .null)).names.filter fields.contains
    let accepted ← ["additionalProperties", "unevaluatedProperties"].mapM fun keyword =>
      match schema.field? keyword with
      | some s => do
        let flags ← fields.mapM fun p => isAccepted ask pos s p.2
        .ok ((fields.names.zip flags).filterMap fun p => if p.2 then some p.1 else none)
      | none => .ok []
    let patterns := (namedOf ((schema.field? "patternProperties").getD .null)).names
    let matched := fields.names.filter fun name => patterns.any fun p => matchesText p name
    let dependent ← (namedOf ((schema.field? "dependentSchemas").getD .null)).mapM fun p =>
      if fields.contains p.1 then evaluatedFields v fuel pos p.2 else .ok []
    let others ← inPlace ask pos (evaluatedFields v fuel) schema v
    .ok (named ++ accepted.flatten ++ matched ++ dependent.flatten ++ others)

def unevaluatedItemsRule (fuel : Nat) (schema : Value) (xs : List Value) : Findings := .after do
  let dealt ← evaluatedItems ask xs fuel pos schema
  let rest := (xs.mapIdx fun i x => (i, x)).filterMap fun p =>
    if dealt.contains p.1 then none else some p.2
  .ok (require rest.isEmpty do
    .ok ("Unevaluated items are not allowed (" ++ (← unexpected rest) ++ ")"))

/-- A field counts once for every violation that is found in it. -/
def unevaluatedPropertiesRule (fuel : Nat) (schema bound v : Value) : Findings := .after do
  let dealt ← evaluatedFields ask v fuel pos schema
  let left : Fields Value := (namedOf v).filter fun p => !dealt.contains p.1
  let counts ← left.mapM fun p => (ask pos bound p.2).all.map List.length
  let names := (left.names.zip counts).flatMap fun p => List.replicate p.2 p.1
  .ok (require names.isEmpty do
    match bound with
    | .bool false =>
      .ok ("Unevaluated properties are not allowed (" ++ (← unexpected (sortedNames names)) ++ ")")
    | _ =>
      .ok ("Unevaluated properties are not valid under the given schema (" ++
        (← unexpected (names.map .str)) ++ ")"))

/-! ## One schema -/

def onItems (v : Value) (rule : List Value → Findings) : Findings :=
  match itemsOf? v with
  | some xs => rule xs
  | none => clean

/-- What a keyword that holds schemas finds. -/
def schemaRule (fuel : Nat) (schema : Value) (keyword : String) (bound v : Value) : Findings :=
  let later := pos.draft = .later
  match keyword with
  | "properties" => propertiesRule ask pos bound v
  | "patternProperties" => patternPropertiesRule ask pos bound v
  | "additionalProperties" => additionalPropertiesRule ask pos schema bound v
  | "propertyNames" => propertyNamesRule ask pos bound v
  | "dependentSchemas" => if later then dependenciesRule ask pos bound v else clean
  | "dependencies" => if later then clean else dependenciesRule ask pos bound v
  | "prefixItems" => if later then onItems v (askByPosition ask pos (listOf bound)) else clean
  | "items" =>
    onItems v (if later then itemsRule ask pos schema bound else positionalItemsRule ask pos bound)
  | "additionalItems" =>
    if later then clean else onItems v (additionalItemsRule ask pos schema bound)
  | "contains" =>
    onItems v (if later then containsRule ask pos schema bound else containsAnyRule ask pos bound)
  | "allOf" => gather (fun s => ask pos s v) (listOf bound)
  | "anyOf" => anyOfRule ask pos bound v
  | "oneOf" => oneOfRule ask pos bound v
  | "not" => notRule ask pos bound v
  | "if" => ifRule ask pos schema bound v
  | "$ref" => referenceRule ask pos bound v
  | "$dynamicRef" => if later then referenceRule ask pos bound v else clean
  | "unevaluatedItems" =>
    if later then onItems v (unevaluatedItemsRule ask pos fuel schema) else clean
  | "unevaluatedProperties" =>
    if later then unevaluatedPropertiesRule ask pos fuel schema bound v else clean
  | _ => clean

/-- The keywords of a schema that count. -/
def keywords (d : Draft) (schema : Value) : Fields Value :=
  match d, schema.field? "$ref" with
  | .seventh, some reference => [("$ref", reference)]
  | _, _ => namedOf schema

/-- What a schema finds wrong with a value. -/
def check : Nat → Ask
  | 0, _, _, _ => .after (.error .schemaTooDeep)
  | fuel + 1, pos, schema, v =>
    match schema with
    | .bool true => clean
    | .bool false => require false do .ok ("False schema does not allow " ++ (← display v))
    | schema =>
      let draft := draftOf pos.draft schema
      let inner : Position := ⟨draft, pos.site.enter draft schema⟩
      gather (fun p => match plainRule? draft p.1 p.2 v with
        | some found => found
        | none => schemaRule (check fuel) inner fuel schema p.1 p.2 v) (keywords draft schema)

/-- How deep schemas may ask each other. -/
def maxDepth : Nat := 480

/-- The texts of all that is wrong with a value by a schema. -/
def violations (schema : Fields Value) (v : Value) : Except Failure (List String) :=
  let whole := Value.obj schema
  (check maxDepth ⟨.later, whole, whole⟩ whole v).all.map fun vs => vs.map Violation.text

end Schema

end Conduit
