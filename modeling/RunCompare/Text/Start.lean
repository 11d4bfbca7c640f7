/-
Fixed characters and words at the start of a text.
-/

namespace RunCompare.Text

/-- The rest of a text that starts with a character. -/
def afterChar (c : Char) : List Char → Option (List Char)
  | d :: rest => if c = d then some rest else none
  | [] => none

/-- The rest of a text that starts with a word. -/
def afterWord (word : String) (cs : List Char) : Option (List Char) :=
  if word.toList.isPrefixOf cs then some (cs.drop word.length) else none

end RunCompare.Text
