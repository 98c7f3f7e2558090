/-!
# Blank characters

The characters that may surround a number without being part of it: the spaces of every script, the
line and paragraph ends, and the tabulators and separators among the controls.
-/

namespace Reckon.Text

/-- Whether a character is blank. -/
def isBlank (c : Char) : Bool :=
  let n := c.toNat
  (0x9 ≤ n && n ≤ 0xd) || (0x1c ≤ n && n ≤ 0x20) || n = 0x85 || n = 0xa0 || n = 0x1680 ||
    (0x2000 ≤ n && n ≤ 0x200a) || n = 0x2028 || n = 0x2029 || n = 0x202f || n = 0x205f || n = 0x3000

/-- The text without the characters of the class `p` at both of its ends. -/
def trimBy (p : Char → Bool) (cs : List Char) : List Char :=
  ((cs.dropWhile p).reverse.dropWhile p).reverse

/-- The text without the blanks at both of its ends. -/
def trim (cs : List Char) : List Char := trimBy isBlank cs

end Reckon.Text
