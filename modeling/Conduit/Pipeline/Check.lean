import Conduit.Diagnostic
import Conduit.Expr.Names
import Conduit.Pipeline

/-!
# Checking a pipeline

The stages of one run share a scope, so their names have to differ, and a
stage can only read names that were bound before it. Both are checked
stage by stage, without running any of them.
-/

namespace Conduit

/-- A stage and where it stands in its document. -/
structure Placed where
  location : String
  stage : Stage

namespace Placed

/-- The stages of a pipeline, numbered behind the location of the whole. -/
def number (location : String) (stages : Pipeline) : List Placed :=
  stages.mapIdx fun i stage => ⟨location ++ "[" ++ toString i ++ "]", stage⟩

def report (p : Placed) (problem : Problem) : Diagnostic := ⟨p.location, p.stage.name, problem⟩

end Placed

namespace Pipeline

/-- What is known before a stage of a run: the names that can be read, and
the names of earlier stages with the places of these. -/
structure Known where
  available : List String
  seen : Fields String := []

/-- The names that a stage reads and that nothing before it binds. -/
def checkReads (known : Known) (p : Placed) : List Diagnostic :=
  (p.stage.value.unbound known.available).eraseDups.map fun name =>
    p.report (.unboundName name known.available)

/-- The schemas of a stage that a registry does not hold. Without a
registry nothing is known about schemas. -/
def checkSchemas (schemas : Option (List String)) (p : Placed) : List Diagnostic :=
  match schemas with
  | none => []
  | some registered =>
    (p.stage.value.schemaNames.eraseDups.filter fun name => !registered.contains name).map
      fun name => p.report (.unknownSchema name registered)

/-- What is wrong with the name of a stage. -/
def checkName (known : Known) (p : Placed) (name : String) : List Diagnostic :=
  if reservedNames.contains name then [p.report (.reservedName name)]
  else match known.seen.get? name with
    | some first => [p.report (.duplicateName name first)]
    | none => []

/-- What is known after a stage of the given name. -/
def Known.add (known : Known) (p : Placed) (name : String) : Known where
  available := if known.available.contains name then known.available else known.available ++ [name]
  seen :=
    if reservedNames.contains name || known.seen.contains name then known.seen
    else known.seen ++ [(name, p.location)]

/-- What is wrong with the stages of one run, in the order in which they
run. -/
def checkStages (schemas : Option (List String)) : Known → List Placed → List Diagnostic
  | _, [] => []
  | known, p :: rest =>
    let own := checkReads known p ++ checkSchemas schemas p
    match p.stage.name with
    | none => own ++ checkStages schemas known rest
    | some name => own ++ checkName known p name ++ checkStages schemas (known.add p name) rest

/-- What is wrong with one pipeline that is run where `names` are bound. -/
def check (names : List String) (schemas : Option (List String)) (location : String)
    (stages : Pipeline) : List Diagnostic :=
  checkStages schemas { available := names } (Placed.number location stages)

end Pipeline

end Conduit
