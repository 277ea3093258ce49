-- The quoted form of a text, as messages show it. It keeps to one line and
-- shows every character that a reader could miss or misread by its number.
import Scriptlet.Text.Printable

namespace Scriptlet.Text

/-- The number of a character in lower-case hexadecimal. -/
def codePoint (c : Char) : String :=
  "\\u\x7b" ++ String.ofList (Nat.toDigits 16 c.toNat) ++ "\x7d"

/-- One character of a quoted text. A quote and a backslash have a backslash
before them, an apostrophe has none. -/
def quoteChar (c : Char) : String :=
  match c with
  | '\x00' => "\\0"
  | '\t' => "\\t"
  | '\r' => "\\r"
  | '\n' => "\\n"
  | '"' => "\\\""
  | '\\' => "\\\\"
  | c => if isPlain c then c.toString else codePoint c

def quote (s : String) : String :=
  "\"" ++ String.join (s.toList.map quoteChar) ++ "\""

end Scriptlet.Text
