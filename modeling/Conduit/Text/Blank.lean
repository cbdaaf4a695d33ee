import Conduit.Text.Runs

/-!
# Blanks

The blank characters of every script: the spaces and line ends, and the
four information separators of ASCII.
-/

namespace Conduit.Text

/-- Where the blank characters begin and end. -/
def blankRuns : List Nat := [
    9, 14, 28, 33, 133, 134, 160, 161, 5760, 5761, 8192, 8203, 8232, 8234, 8239, 8240, 8287, 8288,
    12288, 12289]

def isBlank (c : Char) : Bool := inRuns blankRuns c

def dropBlanks (cs : List Char) : List Char := cs.dropWhile isBlank

def dropBlanksEnd (cs : List Char) : List Char := (cs.reverse.dropWhile isBlank).reverse

/-- A text without the blanks at its two ends. -/
def trim (s : String) : String := String.ofList (dropBlanksEnd (dropBlanks s.toList))

/-- Every line end, of one or two characters, as one line feed. -/
def joinLines : List Char → List Char
  | '\r' :: '\n' :: rest => '\n' :: joinLines rest
  | '\r' :: rest => '\n' :: joinLines rest
  | c :: rest => c :: joinLines rest
  | [] => []

end Conduit.Text
