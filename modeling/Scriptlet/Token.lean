-- The words of the language. A token is a symbol with one fixed spelling, or
-- an integer, a string or an identifier. A terminal is a token without what
-- it carries, which is all that the grammar looks at.

namespace Scriptlet

/-! ## Symbols -/

/-- The tokens with one spelling each: first the keywords, then the
operators, then the brackets and separators. -/
inductive Symbol where
  | print | println | loop | within | cond | otherwise | max | min
  | assign | equal | notEqual | less | greater | plus | minus | range
  | openParen | closeParen | openBrace | closeBrace | openBracket | closeBracket
  | comma | semicolon
  deriving DecidableEq

namespace Symbol

def spelling : Symbol → String
  | print => "print"
  | println => "println"
  | loop => "for"
  | within => "in"
  | cond => "if"
  | otherwise => "else"
  | max => "max"
  | min => "min"
  | assign => "="
  | equal => "=="
  | notEqual => "!="
  | less => "<"
  | greater => ">"
  | plus => "+"
  | minus => "-"
  | range => ".."
  | openParen => "("
  | closeParen => ")"
  | openBrace => "\x7b"
  | closeBrace => "\x7d"
  | openBracket => "["
  | closeBracket => "]"
  | comma => ","
  | semicolon => ";"

/-- The name of a symbol in a token listing. -/
def label : Symbol → String
  | print => "Print"
  | println => "PrintLn"
  | loop => "For"
  | within => "In"
  | cond => "If"
  | otherwise => "Else"
  | max => "Max"
  | min => "Min"
  | assign => "Eq"
  | equal => "EqEq"
  | notEqual => "NotEq"
  | less => "Lt"
  | greater => "Gt"
  | plus => "Plus"
  | minus => "Minus"
  | range => "DotDot"
  | openParen => "LParen"
  | closeParen => "RParen"
  | openBrace => "LBrace"
  | closeBrace => "RBrace"
  | openBracket => "LBracket"
  | closeBracket => "RBracket"
  | comma => "Comma"
  | semicolon => "Semi"

/-- The symbols that are spelled like identifiers. -/
def keywords : List Symbol := [print, println, loop, within, cond, otherwise, max, min]

/-- The other symbols. A symbol stands before every shorter one that starts
its spelling. -/
def marks : List Symbol :=
  [equal, notEqual, range, assign, less, greater, plus, minus, openParen, closeParen,
    openBrace, closeBrace, openBracket, closeBracket, comma, semicolon]

/-- The keyword with this spelling. -/
def keyword? (word : List Char) : Option Symbol :=
  keywords.find? fun s => s.spelling.toList == word

/-- The longest mark at the head of a text. -/
def mark? (text : List Char) : Option Symbol :=
  marks.find? fun s => s.spelling.toList.isPrefixOf text

end Symbol

/-! ## Tokens -/

/-- A token. An integer is never negative, and a string keeps its quotes. -/
inductive Token where
  | symbol (s : Symbol)
  | int (value : Int64)
  | str (raw : String)
  | ident (name : String)
  deriving DecidableEq

/-- The text of a token. An integer is written without leading zeros. -/
def Token.text : Token → String
  | symbol s => s.spelling
  | int n => toString n.toInt
  | str raw => raw
  | ident name => name

/-! ## Terminals -/

/-- A token without what it carries. -/
inductive Terminal where
  | symbol (s : Symbol)
  | int | str | ident
  deriving DecidableEq

def Token.terminal : Token → Terminal
  | symbol s => .symbol s
  | int _ => .int
  | str _ => .str
  | ident _ => .ident

namespace Terminal

def name : Terminal → String
  | symbol s => s.spelling
  | int => "int"
  | str => "string"
  | ident => "ident"

/-- Every terminal, in the order in which a list of expected ones is given. -/
def all : List Terminal :=
  [.print, .println, .loop, .within, .cond, .otherwise, .max, .min].map symbol
    ++ [int, str, ident]
    ++ [.assign, .equal, .notEqual, .less, .greater, .plus, .minus, .range, .openParen,
      .closeParen, .openBrace, .closeBrace, .openBracket, .closeBracket, .comma,
      .semicolon].map symbol

/-- One token of each kind. -/
def sample : Terminal → Token
  | symbol s => .symbol s
  | int => .int 0
  | str => .str "\"\""
  | ident => .ident "_"

@[simp] theorem terminal_sample (t : Terminal) : t.sample.terminal = t := by
  cases t <;> rfl

theorem mem_all (t : Terminal) : t ∈ all := by
  cases t with
  | symbol s => cases s <;> decide
  | _ => decide

end Terminal

end Scriptlet
