import Conduit.Pipeline

/-!
# Configurations

A configuration is a set of routes. A route runs the pipelines of the
middleware that it lists and then its own, all in one scope; the
middleware and the schemas that pipelines refer to are named in
registries.
-/

namespace Conduit

inductive Method where
  | get | post | put | patch | delete | head | options
  deriving DecidableEq, Repr

namespace Method

def name : Method → String
  | .get => "GET"
  | .post => "POST"
  | .put => "PUT"
  | .patch => "PATCH"
  | .delete => "DELETE"
  | .head => "HEAD"
  | .options => "OPTIONS"

def all : List Method := [.get, .post, .put, .patch, .delete, .head, .options]

end Method

structure Route where
  path : String
  method : Method := .get
  /-- The names of the middleware that runs before the route's pipeline. -/
  middleware : List String := []
  pipeline : Pipeline := []
  /-- What is made of the final scope; nothing in it is evaluated. -/
  response : Value := .null

structure Config where
  routes : List Route := []
  middleware : Fields Pipeline := []
  schemas : Fields (Fields Value) := []

end Conduit
