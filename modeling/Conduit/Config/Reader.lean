import Conduit.Config
import Conduit.Pipeline.Reader
import Conduit.Text.Capital

/-!
# Reading a configuration

All parts of a configuration may be left out, and a route needs no more
than its path. Methods are read in any case. The schemas of the registry
have to be schemas; they are looked at when all of them are objects, and
the first that is none is reported.
-/

namespace Conduit

namespace Method

def words : List (String × Method) := all.map fun m => (m.name, m)

def read : Value → Reading Method
  | .str s => Reading.word words (.str (Text.capitals s))
  | v => Reading.word words v

end Method

namespace Route

def read (v : Value) : Reading Route :=
  match Arguments.of? v with
  | some args =>
    Route.mk <$> args.required ["path"] (Reading.string ·.1)
      <*> args.optional ["method"] .get (Method.read ·.1)
      <*> args.optional ["middleware"] [] (fun v => Reading.list v.1 (Reading.string ·.1))
      <*> args.optional ["pipeline"] [] (Pipeline.read ·.1)
      <*> args.optional ["response"] .null (fun v => .done v.1)
      <* args.closed [["path"], ["method"], ["middleware"], ["pipeline"], ["response"]]
  | none => .complain (.notPart "Route")

end Route

namespace Config

/-- One middleware, which is a pipeline. -/
def readMiddleware (v : Value) : Reading Pipeline :=
  match Arguments.of? v with
  | some args =>
    args.optional ["pipeline"] [] (Pipeline.read ·.1) <* args.closed [["pipeline"]]
  | none => .complain (.notPart "Middleware")

def readFields (v : Value) : Reading (Fields Value) := Reading.fields v fun w => .done w.1

/-- The registry of schemas, if all of it are schemas. -/
def checkRegistry (schemas : Fields (Fields Value)) : Reading (Fields (Fields Value)) :=
  match schemas.find? fun p => !Schema.isValid p.2 with
  | none => .done schemas
  | some (name, _) => .complain (.broken ("Schema '" ++ name ++ "': " ++ Expr.invalidSchema))

def readSchemas (v : Value) : Reading (Fields (Fields Value)) :=
  (Reading.fields v (readFields ·.1)).andThen checkRegistry

def read (v : Value) : Reading Config :=
  match Arguments.of? v with
  | some args =>
    Config.mk <$> args.optional ["routes"] [] (fun v => Reading.list v.1 (Route.read ·.1))
      <*> args.optional ["middleware"] []
        (fun v => Reading.fields v.1 (readMiddleware ·.1))
      <*> args.optional ["schemas"] [] (readSchemas ·.1)
      <* args.closed [["routes"], ["middleware"], ["schemas"]]
  | none => .complain .notObject

end Config

end Conduit
