import Conduit.Failure
import Conduit.Reading.Scalar
import Conduit.Schema.Draft
import Conduit.Text.Numeral
import Conduit.Value.Text

/-!
# References between schemas

A reference names a resource, which is a schema with an identifier or the
schema around all, and a place in it: all of it, a pointer of keys and
positions, or the plain name that a schema inside it gives itself. A
resource is found by its identifier as that is written; nothing is
fetched from elsewhere.

This stands for the resolution of references in jsonschema.
-/

namespace Conduit

namespace Schema

/-- Where a schema stands: inside which resource, and inside what whole. -/
structure Site where
  whole : Value
  resource : Value

/-- The identifier of a schema, which makes it a resource. A mere plain
name is none, nor in draft-07 what stands beside a reference. -/
def identifier? (d : Draft) (schema : Value) : Option String :=
  match schema.field? "$id" with
  | some (.str id) =>
    match d with
    | .later => some id
    | .seventh =>
      if (schema.field? "$ref").isSome || id.startsWith "#" then none else some id
  | _ => none

/-- The site of what is inside a schema. -/
def Site.enter (d : Draft) (site : Site) (schema : Value) : Site :=
  if (identifier? d schema).isSome then { site with resource := schema } else site

def anchors (d : Draft) (schema : Value) : List String :=
  let text (keyword : String) : List String := match schema.field? keyword with
    | some (.str s) => [s]
    | _ => []
  match d with
  | .later => text "$anchor" ++ text "$dynamicAnchor"
  | .seventh => (text "$id").filterMap fun id =>
    if id.startsWith "#" then some (id.drop 1).toString else none

/-! ## Finding a schema -/

mutual

/-- The first part of a value that satisfies a condition; parts are not
looked into where `stop` holds of them. -/
def findPart (found stop : Value → Bool) : Value → Option Value
  | .arr xs => if found (.arr xs) then some (.arr xs) else findItem found stop xs
  | .obj fs =>
    if found (.obj fs) then some (.obj fs)
    else findField found stop fs
  | .mapping es => if found (.mapping es) then some (.mapping es) else findEntry found stop es
  | v => if found v then some v else none

def findItem (found stop : Value → Bool) : List Value → Option Value
  | [] => none
  | v :: rest =>
    match if stop v then none else findPart found stop v with
    | some w => some w
    | none => findItem found stop rest

def findField (found stop : Value → Bool) : List (String × Value) → Option Value
  | [] => none
  | (_, v) :: rest =>
    match if stop v then none else findPart found stop v with
    | some w => some w
    | none => findField found stop rest

def findEntry (found stop : Value → Bool) : List (Value × Value) → Option Value
  | [] => none
  | (_, v) :: rest =>
    match if stop v then none else findPart found stop v with
    | some w => some w
    | none => findEntry found stop rest

end

/-- The schema of a plain name inside a resource, but not inside another
resource in it. -/
def findAnchor? (d : Draft) (resource : Value) (name : String) : Option Value :=
  findPart (fun v => (anchors d v).contains name) (fun v => (identifier? d v).isSome) resource

def findResource? (d : Draft) (whole : Value) (uri : String) : Option Value :=
  findPart (fun v => (identifier? d v).any fun id => Draft.dropEmptyFragment id == uri)
    (fun _ => false) whole

/-! ## Pointers -/

/-- The bytes of a text whose percent signs stand for bytes. -/
def percentBytes : List Char → List UInt8
  | '%' :: a :: b :: rest =>
    match Text.hexValue? a, Text.hexValue? b with
    | some x, some y => UInt8.ofNat (16 * x + y) :: percentBytes rest
    | _, _ => "%".toUTF8.toList ++ percentBytes (a :: b :: rest)
  | c :: rest => c.toString.toUTF8.toList ++ percentBytes rest
  | [] => []

/-- A text with its percent signs resolved; bytes that are no text stay as
they were written. -/
def unquote (s : String) : String :=
  (String.fromUTF8? ⟨(percentBytes s.toList).toArray⟩).getD s

/-- A key of a pointer: a tilde and a digit stand for a slash or a tilde. -/
def unescape (s : String) : String := (s.replace "~1" "/").replace "~0" "~"

/-- What a key of a pointer leads to. -/
def stepInto? (v : Value) (key : String) : Option Value :=
  match v with
  | .arr xs =>
    match Reading.plainInteger? key.toList with
    | some i => if 0 ≤ i then xs[i.toNat]? else xs.reverse[(-i).toNat - 1]?
    | none => none
  | v => v.field? (unescape key)

/-- The place that the keys of a pointer lead to. -/
def followKeys? (d : Draft) : List String → Value → Site → Option (Value × Site)
  | [], v, site => some (v, site)
  | key :: rest, v, site => do
    let w ← stepInto? v key
    followKeys? d rest w (site.enter d w)

def shown (v : Value) : Except Failure String := v.display.mapError .limit

/-- What a pointer leads to inside a resource. -/
def followPointer (d : Draft) (site : Site) (pointer : String) : Except Failure (Value × Site) :=
  match followKeys? d ((unquote (pointer.drop 1).toString).splitOn "/") site.resource site with
  | some found => .ok found
  | none => do .error (.lostReference (.pointer pointer (← shown site.resource)))

/-- A place inside a resource. -/
def followFragment (d : Draft) (site : Site) (fragment : String) : Except Failure (Value × Site) :=
  if fragment.isEmpty then .ok (site.resource, site)
  else if fragment.startsWith "/" then followPointer d site fragment
  else match findAnchor? d site.resource fragment with
    | some v => .ok (v, site)
    | none =>
      if fragment.contains '/' then .error (.lostReference (.badAnchor fragment))
      else do .error (.lostReference (.anchor fragment (← shown site.resource)))

/-- The schema that a reference leads to, and its site. -/
def followReference (d : Draft) (site : Site) (reference : String) :
    Except Failure (Value × Site) :=
  let uri := (reference.toList.takeWhile (· ≠ '#'))
  let fragment := String.ofList (reference.toList.drop (uri.length + 1))
  if uri.isEmpty then followFragment d site fragment
  else match findResource? d site.whole (String.ofList uri) with
    | some resource => followFragment d { site with resource } fragment
    | none => .error (.lostReference (.resource reference))

end Schema

end Conduit
