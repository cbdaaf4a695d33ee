/-!
# Backslash escapes

Inside quotes a backslash makes the next character plain. A line end
cannot be escaped.
-/

namespace Conduit.Text

/-- The text with each escape replaced by the character it protects. -/
def unescape : List Char → List Char
  | '\\' :: c :: rest => if c = '\n' then '\\' :: c :: unescape rest else c :: unescape rest
  | c :: rest => c :: unescape rest
  | [] => []

/-- The text with its backslashes and the quote `q` escaped. -/
def escape (q : Char) (cs : List Char) : List Char :=
  cs.flatMap fun c => if c = '\\' ∨ c = q then ['\\', c] else [c]

end Conduit.Text
