/-
Lines of a text.

A line is what stands between two line feeds, or between one and an end of the
text; `lines` therefore has one element more than the text has line feeds, and
the text that ends in a line feed has an empty last line.  A carriage return
before a line feed stays in its line: who reads lines also trims them.  Only
`firstLine` takes the two characters together for the end of a line.
-/

namespace RunCompare.Text

/-- The pieces of a text between its line feeds. -/
def lines (text : List Char) : List (List Char) := text.splitOn '\n'

/-- The first line of a text; a carriage return right before its line feed is not part of it. -/
def firstLine : List Char → List Char
  | [] => []
  | '\n' :: _ => []
  | '\r' :: '\n' :: _ => []
  | c :: rest => c :: firstLine rest

/-- A list of lines as one text in which a line feed follows every line. -/
def unlines (ls : List String) : String := String.join (ls.map (· ++ "\n"))

end RunCompare.Text
