/-!
# Capitals

Letters as capitals, as far as these are plain letters. A few small
letters outside the plain alphabet have capitals in it, and a ligature
has several.
-/

namespace Conduit

namespace Text

/-- The capitals of a letter; any other character stands for itself, also
a letter whose capital is no plain letter. -/
def capital (c : Char) : List Char :=
  match c with
  | 'ı' => ['I']
  | 'ſ' => ['S']
  | 'ß' => ['S', 'S']
  | 'ﬀ' => ['F', 'F']
  | 'ﬁ' => ['F', 'I']
  | 'ﬂ' => ['F', 'L']
  | 'ﬃ' => ['F', 'F', 'I']
  | 'ﬄ' => ['F', 'F', 'L']
  | 'ﬅ' => ['S', 'T']
  | 'ﬆ' => ['S', 'T']
  | c => [c.toUpper]

def capitals (s : String) : String := String.ofList (s.toList.flatMap capital)

end Text

end Conduit
