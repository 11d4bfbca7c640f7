/-
Blank characters and the trimming of texts.

A character is blank if it has the Unicode property `White_Space`: twenty-five
characters, six of them in ASCII.
-/

namespace RunCompare.Text

/-- Whether a character has the Unicode property `White_Space`. -/
def isBlank (c : Char) : Bool :=
  let n := c.toNat
  (0x9 ≤ n && n ≤ 0xD) || n == 0x20 || n == 0x85 || n == 0xA0 || n == 0x1680
    || (0x2000 ≤ n && n ≤ 0x200A) || n == 0x2028 || n == 0x2029 || n == 0x202F || n == 0x205F
    || n == 0x3000

/-- A text without the blank characters at its two ends. -/
def trim (cs : List Char) : List Char :=
  ((cs.dropWhile isBlank).reverse.dropWhile isBlank).reverse

/-- Whether every character of a text is blank. -/
def isAllBlank (text : String) : Bool := text.toList.all isBlank

end RunCompare.Text
