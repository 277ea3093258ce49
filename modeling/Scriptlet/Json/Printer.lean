-- Writing a document. The compact form writes its tokens one after another.
-- The indented form puts blanks between them: each item and field has a line
-- of its own, indented by its depth, and an empty container stays closed.
import Scriptlet.Json

namespace Scriptlet.Json

/-! ## The text of a token -/

/-- One hexadecimal digit, in lower case. -/
def hexDigit (n : Nat) : Char := Nat.digitChar (n % 16)

/-- One character of a string. Only a quote, a backslash and the controls are
escaped. -/
def escape (c : Char) : List Char :=
  match c with
  | '"' => ['\\', '"']
  | '\\' => ['\\', '\\']
  | '\x08' => ['\\', 'b']
  | '\x0c' => ['\\', 'f']
  | '\n' => ['\\', 'n']
  | '\r' => ['\\', 'r']
  | '\t' => ['\\', 't']
  | c =>
    if c.toNat < 0x20 then ['\\', 'u', '0', '0', hexDigit (c.toNat / 16), hexDigit c.toNat]
    else [c]

/-- The literal of a text. -/
def quote (s : String) : List Char := '"' :: (s.toList.flatMap escape ++ ['"'])

def Text.spelling : Text → List Char
  | whole s => quote s
  | broken literal => literal.toList

def Token.spelling : Token → List Char
  | openArr => ['[']
  | closeArr => [']']
  | openObj => ['\x7b']
  | closeObj => ['\x7d']
  | comma => [',']
  | colon => [':']
  | null => "null".toList
  | bool true => "true".toList
  | bool false => "false".toList
  | int n => (toString n).toList
  | real literal => literal.toList
  | str t => t.spelling

/-! ## The blanks between tokens -/

namespace Token

def opens : Token → Bool
  | openArr | openObj => true
  | _ => false

def closes : Token → Bool
  | closeArr | closeObj => true
  | _ => false

end Token

/-- A new line at some depth, with two spaces for each level. -/
def newLine (depth : Nat) : List Char := '\n' :: List.replicate (2 * depth) ' '

/-- The blanks of the indented form between two tokens, the second of which
stands at `depth`. -/
def indentation (depth : Nat) (before after : Token) : List Char :=
  if before.opens && after.closes then []
  else if before.opens || before == .comma || after.closes then newLine depth
  else if before == .colon then [' ']
  else []

/-- The depth at which a token stands, when the one before it leaves `depth`. -/
def Token.standsAt (depth : Nat) (t : Token) : Nat := if t.closes then depth - 1 else depth

/-- The depth that a token leaves, when it stands at `depth`. -/
def Token.leaves (depth : Nat) (t : Token) : Nat := if t.opens then depth + 1 else depth

/-- Tokens with blanks between them, after `before` which left `depth`. -/
def spaced (depth : Nat) (before : Token) : List Token → List Char
  | [] => []
  | t :: ts =>
    let d := t.standsAt depth
    indentation d before t ++ (t.spelling ++ spaced (t.leaves d) t ts)

/-! ## Documents -/

def compact (j : Json) : String := String.ofList (j.tokens.flatMap Token.spelling)

def pretty (j : Json) : String :=
  match j.tokens with
  | [] => ""
  | t :: ts => String.ofList (t.spelling ++ spaced (t.leaves 0) t ts)

end Scriptlet.Json
