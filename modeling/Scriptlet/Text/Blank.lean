-- The blank characters of Unicode, which have the property White_Space, and a
-- text without the blanks at its ends.

namespace Scriptlet.Text

/-- Whether a character is blank: the ASCII blanks, the controls and spaces
that count as blanks, and the two separators. -/
def isBlank (c : Char) : Bool :=
  let n := c.toNat
  (0x09 ≤ n && n ≤ 0x0d) || n == 0x20 || n == 0x85 || n == 0xa0 || n == 0x1680
    || (0x2000 ≤ n && n ≤ 0x200a) || n == 0x2028 || n == 0x2029 || n == 0x202f || n == 0x205f
    || n == 0x3000

/-- A text without the blanks before and after it. -/
def trim (s : String) : String :=
  let front := s.toList.dropWhile isBlank
  String.ofList (front.reverse.dropWhile isBlank).reverse

end Scriptlet.Text
