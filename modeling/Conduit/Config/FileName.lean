/-!
# File names

A file name is a way through folders. Empty parts of it and parts that
stay where they are do not count, so one file has one name to be shown
by.
-/

namespace Conduit

namespace FileName

/-- The parts of a name that lead somewhere. -/
def parts (name : String) : List String :=
  (name.splitOn "/").filter fun part => part ≠ "" && part ≠ "."

/-- The slashes at the start: two are told from one, more are like one. -/
def root (name : String) : String :=
  let slashes := (name.toList.takeWhile (· = '/')).length
  if slashes = 0 then "" else if slashes = 2 then "//" else "/"

def shown (name : String) : String :=
  let path := root name ++ "/".intercalate (parts name)
  if path.isEmpty then "." else path

/-- What follows the last point of a name, with the point. A point at
either end of the name starts none. -/
def suffix (name : String) : String :=
  let last := ((parts name).getLast?.getD "").toList
  let tail := (last.reverse.takeWhile (· ≠ '.')).reverse
  if tail.length + 1 < last.length && !tail.isEmpty then String.ofList ('.' :: tail) else ""

end FileName

end Conduit
