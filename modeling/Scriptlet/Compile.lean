-- From a text to a program: from source text, or from the JSON form of a tree.
import Scriptlet.CompileError
import Scriptlet.Syntax.Decode
import Scriptlet.Syntax.Parser
import Scriptlet.Token.Lexer

namespace Scriptlet

def LexError.toCompileError (e : LexError) : CompileError := .lexer e.message e.span

def SyntaxError.toCompileError (e : SyntaxError) : CompileError := .parser e.message e.span

/-- The program that a source text writes. -/
def compile (source : String) : Except CompileError Program :=
  match tokenize source with
  | .error e => .error e.toCompileError
  | .ok tokens => (parse source tokens).mapError SyntaxError.toCompileError

/-- The program whose JSON form is this text. -/
def readTree (source : String) : Except CompileError Program :=
  match Program.ofJson? source with
  | some p => .ok p
  | none => .error (.syntaxTree "not the JSON form of a program")

end Scriptlet
