import Conduit.Value.Basic

/-!
# Drafts of the schema language

Two drafts are known. A schema names its draft under `$schema`; without a
name that is known, the draft around it goes on, and the later one holds
at the top.

Schemas are carried out by jsonschema, a library on its own. The modules on
schemas stand for it, with the drafts that it knows and the messages that it
gives.
-/

namespace Conduit

namespace Schema

inductive Draft where
  | later
  /-- Draft-07, in which a reference hides its siblings. -/
  | seventh
  deriving DecidableEq, Repr

namespace Draft

/-- The identifier of a draft without an empty fragment. -/
def identifier : Draft → String
  | .later => "https://json-schema.org/draft/2020-12/schema"
  | .seventh => "http://json-schema.org/draft-07/schema"

/-- An identifier without an empty fragment at its end. -/
def dropEmptyFragment (uri : String) : String :=
  match uri.toList.reverse with
  | '#' :: rest => String.ofList rest.reverse
  | _ => uri

def ofIdentifier? (uri : String) : Option Draft :=
  [Draft.later, Draft.seventh].find? fun d => d.identifier == dropEmptyFragment uri

end Draft

/-- The draft of a schema that stands inside one of the draft `outer`. -/
def draftOf (outer : Draft) (schema : Value) : Draft :=
  match schema.field? "$schema" with
  | some (.str uri) => (Draft.ofIdentifier? uri).getD outer
  | _ => outer

end Schema

end Conduit
