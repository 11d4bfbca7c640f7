/-
What separates the words and the lines of a TOML text.

Gaps are blanks and tabs.  A comment ends with its line, and a line ends with a
line feed, which a carriage return may precede, or with the text.
-/

namespace RunCompare.Toml

/-- Whether a character separates words of one line. -/
def isGap (c : Char) : Bool := c == ' ' || c == '\t'

/-- A text without the gaps at its start. -/
def skipGaps (cs : List Char) : List Char := cs.dropWhile isGap

/-- Whether a character may stand for itself in a comment or a string: control characters other
than the tab may not. -/
def isPlain (c : Char) : Bool := c == '\t' || (0x20 ≤ c.toNat && c.toNat != 0x7F)

/-- The rest after a line end. -/
def afterNewline : List Char → Option (List Char)
  | '\n' :: rest => some rest
  | '\r' :: '\n' :: rest => some rest
  | _ => none

/-- The rest after a comment, if there is one. -/
def skipComment : List Char → List Char
  | '#' :: rest => rest.dropWhile isPlain
  | cs => cs

/-- The rest after gaps, a comment and the end of the line or of the text. -/
def afterLine (cs : List Char) : Option (List Char) :=
  match skipComment (skipGaps cs) with
  | [] => some []
  | cs => afterNewline cs

/-- The rest after gaps, comments and line ends; the fuel is at least the length. -/
def skipLines : (fuel : Nat) → List Char → Option (List Char)
  | 0, cs => some cs
  | fuel + 1, cs =>
    match skipGaps cs with
    | '#' :: rest => do skipLines fuel (← afterNewline (rest.dropWhile isPlain))
    | '\r' :: rest => do skipLines fuel (← afterNewline ('\r' :: rest))
    | '\n' :: rest => skipLines fuel rest
    | cs => some cs

end RunCompare.Toml
