-- What stops a program before it runs.
import Scriptlet.Span

namespace Scriptlet

inductive CompileError where
  /-- A place in the source that is not made of tokens. -/
  | lexer (message : String) (span : Span)
  /-- A token that cannot stand where it is. -/
  | parser (message : String) (span : Span)
  /-- A source that cannot be read. -/
  | io (message : String)
  /-- A text that is not the JSON form of a program. -/
  | syntaxTree (message : String)

namespace CompileError

def message : CompileError → String
  | lexer m _ | parser m _ | io m | syntaxTree m => m

def span? : CompileError → Option Span
  | lexer _ s | parser _ s => some s
  | io _ | syntaxTree _ => none

/-- The part that found the error, as titles and messages name it. -/
def part : CompileError → String
  | lexer .. => "Lexer"
  | parser .. => "Parser"
  | io _ => "IO"
  | syntaxTree _ => "Syntax tree"

/-- The one-line form, with the line where it is known. -/
def display (e : CompileError) : String :=
  match e.span? with
  | some s => s!"{e.part} error at line {s.line}: {e.message}"
  | none => s!"{e.part} error: {e.message}"

end CompileError

end Scriptlet
