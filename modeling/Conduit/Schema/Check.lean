import Conduit.Number
import Conduit.Pattern.Reader
import Conduit.Pattern.Search
import Conduit.Schema.Draft
import Conduit.Value.Order

/-!
# Well-formed schemas

What every keyword of a draft has to hold: another schema, several of
them by position or by name, or data of a certain form. Keywords that a
draft does not know may hold anything.

This stands for the check of schemas in jsonschema.
-/

namespace Conduit

namespace Schema

/-- What a keyword has to hold. -/
inductive Form where
  | schema
  /-- At least one schema, in a list. -/
  | schemas
  /-- Schemas by name. -/
  | schemaMap
  /-- Schemas by pattern. -/
  | patternMap
  | schemaOrSchemas
  /-- Schemas or lists of names, by name. -/
  | dependencies
  | string | boolean | array | number | positive | count
  | pattern
  /-- Text of the given pattern. -/
  | like (pattern : String)
  | types
  | names
  /-- Lists of names, by name. -/
  | namesMap
  | booleanMap
  | anything

/-- The form of the plain names that schemas give themselves. -/
def anchorForm : Form := .like "^[A-Za-z_][-A-Za-z0-9._]*$"

/-- The keywords that both drafts know alike. -/
def sharedForms : Fields Form := [
  ("$schema", .string), ("$ref", .string), ("$comment", .string),
  ("type", .types), ("enum", .array),
  ("multipleOf", .positive), ("maximum", .number), ("exclusiveMaximum", .number),
  ("minimum", .number), ("exclusiveMinimum", .number),
  ("maxLength", .count), ("minLength", .count), ("pattern", .pattern),
  ("maxItems", .count), ("minItems", .count), ("uniqueItems", .boolean),
  ("maxProperties", .count), ("minProperties", .count), ("required", .names),
  ("contains", .schema), ("additionalProperties", .schema), ("definitions", .schemaMap),
  ("properties", .schemaMap), ("patternProperties", .patternMap),
  ("propertyNames", .schema), ("dependencies", .dependencies),
  ("if", .schema), ("then", .schema), ("else", .schema),
  ("allOf", .schemas), ("anyOf", .schemas), ("oneOf", .schemas), ("not", .schema),
  ("title", .string), ("description", .string), ("readOnly", .boolean),
  ("writeOnly", .boolean), ("examples", .array), ("format", .string),
  ("contentEncoding", .string), ("contentMediaType", .string)]

def laterForms : Fields Form := [
  ("$id", .like "^[^#]*#?$"), ("$anchor", anchorForm), ("$dynamicRef", .string),
  ("$dynamicAnchor", anchorForm), ("$vocabulary", .booleanMap), ("$defs", .schemaMap),
  ("$recursiveRef", .string), ("$recursiveAnchor", anchorForm),
  ("prefixItems", .schemas), ("items", .schema), ("dependentSchemas", .schemaMap),
  ("unevaluatedItems", .schema), ("unevaluatedProperties", .schema),
  ("maxContains", .count), ("minContains", .count), ("dependentRequired", .namesMap),
  ("deprecated", .boolean), ("contentSchema", .schema)]

def seventhForms : Fields Form := [
  ("$id", .string), ("items", .schemaOrSchemas), ("additionalItems", .schema)]

/-- What a keyword of a draft has to hold. -/
def formOf (d : Draft) (keyword : String) : Form :=
  let own := match d with
    | .later => laterForms
    | .seventh => seventhForms
  ((own.get? keyword).or (sharedForms.get? keyword)).getD .anything

/-! ## Data -/

def isWhole : Number → Bool
  | .int _ => true
  | .double x => x.toInt?.isSome

def isLess (x y : Number) : Bool :=
  match x.extended?, y.extended? with
  | some a, some b => a.compare b == .lt
  | _, _ => false

def isAtMost (x y : Number) : Bool := isLess x y || x.equal y

def typeNames : List String :=
  ["array", "boolean", "integer", "null", "number", "object", "string"]

def isTypeName : Value → Bool
  | .str s => typeNames.contains s
  | _ => false

def allDistinct : List Value → Bool
  | [] => true
  | v :: rest => !rest.any v.equal && allDistinct rest

def isNames : Value → Bool
  | .arr xs => xs.all (fun x => x.kind = .string) && allDistinct xs
  | _ => false

def isString (v : Value) : Bool := v.kind = .string

def isBoolean (v : Value) : Bool := v.kind = .boolean

/-- Whether an object has members that all satisfy a condition. -/
def allMembers (holds : Value → Bool) (v : Value) : Bool :=
  (v.entries?.map fun es => es.all fun e => holds e.2).getD false

def matchesText (pattern text : String) : Bool :=
  ((Pattern.parse? pattern).map fun p => p.search text).getD false

/-- Whether a key that is text is a pattern. -/
def isPatternKey : Value → Bool
  | .str s => (Pattern.parse? s).isSome
  | _ => true

def patternKeys (v : Value) : Bool :=
  (v.entries?.map fun es => es.all fun e => isPatternKey e.1).getD false

/-- Whether data has a form that needs no other schema. -/
def hasForm : Form → Value → Bool
  | .string, v => isString v
  | .boolean, v => isBoolean v
  | .array, v => v.kind = .array
  | .number, v => v.isNumber
  | .positive, .number n => !isAtMost n (.int 0)
  | .count, .number n => isWhole n && !isLess n (.int 0)
  | .pattern, .str s => (Pattern.parse? s).isSome
  | .like pattern, .str s => matchesText pattern s
  | .types, .arr xs => !xs.isEmpty && xs.all isTypeName && allDistinct xs
  | .types, v => isTypeName v
  | .names, v => isNames v
  | .namesMap, v => allMembers isNames v
  | .booleanMap, v => allMembers isBoolean v
  | .patternMap, v => patternKeys v
  | .anything, _ => true
  | _, _ => false

/-! ## Schemas -/

mutual

/-- Whether a value is a schema: a boolean, or an object whose keywords
hold what they have to. -/
def isSchema (d : Draft) : Value → Bool
  | .bool _ => true
  | .obj fs => allKeywords d fs
  | .mapping es => allEntryKeywords d es
  | _ => false

def allKeywords (d : Draft) : List (String × Value) → Bool
  | [] => true
  | (keyword, v) :: rest => holdsForm d (formOf d keyword) v && allKeywords d rest

/-- Only keys that are text are keywords. -/
def allEntryKeywords (d : Draft) : List (Value × Value) → Bool
  | [] => true
  | (.str keyword, v) :: rest => holdsForm d (formOf d keyword) v && allEntryKeywords d rest
  | (_, _) :: rest => allEntryKeywords d rest

/-- Whether a value has a form in which schemas may stand. -/
def holdsForm (d : Draft) (form : Form) (v : Value) : Bool :=
  match form, v with
  | .schema, .bool _ => true
  | .schema, .obj fs => allKeywords d fs
  | .schema, .mapping es => allEntryKeywords d es
  | .schemas, .arr xs => !xs.isEmpty && allSchemas d xs
  | .schemaMap, .obj fs => allNamedSchemas d fs
  | .schemaMap, .mapping es => allEntrySchemas d es
  | .patternMap, .obj fs => hasForm .patternMap (.obj fs) && allNamedSchemas d fs
  | .patternMap, .mapping es => hasForm .patternMap (.mapping es) && allEntrySchemas d es
  | .schemaOrSchemas, .bool _ => true
  | .schemaOrSchemas, .obj fs => allKeywords d fs
  | .schemaOrSchemas, .mapping es => allEntryKeywords d es
  | .schemaOrSchemas, .arr xs => !xs.isEmpty && allSchemas d xs
  | .dependencies, .obj fs => allDependencies d fs
  | .dependencies, .mapping es => allEntryDependencies d es
  | form, v => hasForm form v

def allSchemas (d : Draft) : List Value → Bool
  | [] => true
  | v :: rest => isSchema d v && allSchemas d rest

def allNamedSchemas (d : Draft) : List (String × Value) → Bool
  | [] => true
  | (_, v) :: rest => isSchema d v && allNamedSchemas d rest

def allEntrySchemas (d : Draft) : List (Value × Value) → Bool
  | [] => true
  | (_, v) :: rest => isSchema d v && allEntrySchemas d rest

def allDependencies (d : Draft) : List (String × Value) → Bool
  | [] => true
  | (_, v) :: rest => (isNames v || isSchema d v) && allDependencies d rest

def allEntryDependencies (d : Draft) : List (Value × Value) → Bool
  | [] => true
  | (_, v) :: rest => (isNames v || isSchema d v) && allEntryDependencies d rest

end

/-- Whether an object is a schema of the draft that it names. -/
def isValid (schema : Fields Value) : Bool :=
  isSchema (draftOf .later (.obj schema)) (.obj schema)

end Schema

end Conduit
