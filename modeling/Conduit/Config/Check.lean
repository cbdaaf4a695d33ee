import Conduit.Config
import Conduit.Pipeline.Check

/-!
# Checking a configuration

Every route is checked as the one run that it is: the stages of its
middleware, in order, and then its own. Middleware that no route lists is
checked by itself.
-/

namespace Conduit

namespace Config

/-- The stages of a pipeline that belongs to the thing at `location`. -/
def placed (location : String) (stages : Pipeline) : List Placed :=
  Placed.number (location ++ ".pipeline") stages

def middlewareLocation (name : String) : String := "middleware." ++ name

def routeLocation (index : Nat) (r : Route) : String :=
  "routes[" ++ toString index ++ "] " ++ r.method.name ++ " " ++ r.path

/-- The stages of middleware given by its name; none if it is not defined. -/
def middlewareStages (c : Config) (name : String) : List Placed :=
  match c.middleware.get? name with
  | some stages => placed (middlewareLocation name) stages
  | none => []

def routeStages (c : Config) (index : Nat) (r : Route) : List Placed :=
  r.middleware.flatMap c.middlewareStages ++ placed (routeLocation index r) r.pipeline

def unknownMiddleware (c : Config) (index : Nat) (r : Route) : List Diagnostic :=
  (r.middleware.filter fun name => !c.middleware.contains name).map fun name =>
    ⟨routeLocation index r, none, .unknownMiddleware name c.middleware.names⟩

/-- What is wrong with stages that run in the scope of a request. -/
def checkRun (c : Config) (stages : List Placed) : List Diagnostic :=
  Pipeline.checkStages (some c.schemas.names) { available := reservedNames } stages

def checkRoute (c : Config) (index : Nat) (r : Route) : List Diagnostic :=
  c.unknownMiddleware index r ++ c.checkRun (c.routeStages index r)

def isUsed (c : Config) (name : String) : Bool :=
  c.routes.any fun r => r.middleware.contains name

def checkUnused (c : Config) : List Diagnostic :=
  (c.middleware.filter fun p => !c.isUsed p.1).flatMap fun p =>
    c.checkRun (placed (middlewareLocation p.1) p.2)

/-- All that is wrong with a configuration. -/
def check (c : Config) : List Diagnostic :=
  (c.routes.mapIdx c.checkRoute).flatten ++ c.checkUnused

end Config

end Conduit
