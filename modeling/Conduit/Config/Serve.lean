import Conduit.Config

/-!
# Serving a request

A route runs the middleware that it lists, in that order, and then its own
pipeline, all in the one scope that the request starts. The first of them
that returns or fails is the last.
-/

namespace Conduit

variable {σ : Type}

namespace Pipeline

/-- Pipelines run one after another and then a last one, each in the scope
that the one before leaves behind. -/
def runAfter (host : Host σ) : List Pipeline → Pipeline → Scope → StateM (World σ) RunEnd
  | [], last, s => run host last s
  | first :: rest, last, s => do
    let ended ← run host first s
    match ended.outcome with
    | .ok ⟨.completed, _, _⟩ => runAfter host rest last ended.scope
    | _ => pure ended

end Pipeline

namespace Config

/-- The middleware that a route lists, if all of it is defined. -/
def middlewareOf? (c : Config) (r : Route) : Option (List Pipeline) :=
  r.middleware.mapM fun name => c.middleware.get? name

/-- The run that answers a request to a route; schemas are those of the
configuration. There is none if the route lists middleware that is not
defined. -/
def serve? (c : Config) (host : Host σ) (r : Route) (request : Request) :
    Option (StateM (World σ) RunEnd) :=
  (c.middlewareOf? r).map fun middleware =>
    Pipeline.runAfter { host with schemas := c.schemas } middleware r.pipeline (.ofRequest request)

end Config

end Conduit
