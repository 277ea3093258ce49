-- The interactive shell. A line that starts with a colon is a command, and any
-- other is an input to the session.
import Scriptlet.Diagnostic
import Scriptlet.Text.Backspace
import Scriptlet.Text.Blank

namespace Scriptlet

/-- What the shell answers to one line, and whether it goes on. -/
structure Reply where
  output : ByteArray
  diagnostics : List Diagnostic
  session : Session
  goesOn : Bool

namespace Shell

/-- The name that stands for the input in diagnostics. -/
def inputName : String := "<repl>"

def banner : String := "Cinder REPL v0.1.0\nType :help for help, :quit to exit.\n\n"

def farewell : String := "Goodbye!\n"

def help : String :=
  "Cinder REPL Commands:\n"
    ++ "  :help, :h, :?   Show this help\n"
    ++ "  :quit, :q       Exit the REPL\n"
    ++ "  :clear          Clear the screen\n"
    ++ "  :env            List current bindings\n"
    ++ "  :reset          Remove all bindings\n"
    ++ "\n"
    ++ "You can enter:\n"
    ++ "  - Statements: x = [1, 2]; for i in 0..1 \x7b println x[i]; \x7d\n"
    ++ "  - Expressions: x max 3, \"n=\" + n\n"

/-- The terminal codes that clear the screen and go to its first place. -/
def clearScreen : String := "\x1b[2J\x1b[1;1H"

/-! ## Reading lines -/

/-- A line without the carriage return that may end it. -/
def withoutReturn (line : List Char) : List Char :=
  if line.getLast? = some '\r' then line.dropLast else line

/-- The input that a line holds. `ended` says whether a line feed ended it. -/
def inputOf (line : List Char) (ended : Bool) : String :=
  Text.trim (String.ofList (Text.applyBackspaces (if ended then withoutReturn line else line)))

/-- The inputs of a text, one for each line. What follows the last line feed is
one too, unless it is empty. -/
def inputs (line : List Char) : List Char → List String
  | [] => if line.isEmpty then [] else [inputOf line.reverse false]
  | '\n' :: cs => inputOf line.reverse true :: inputs [] cs
  | c :: cs => inputs (c :: line) cs

/-! ## Answers -/

/-- An answer that leaves the session as it is and goes on. -/
def say (s : Session) (text : String) : Reply := ⟨text.toUTF8, [], s, true⟩

/-- The answer to a command. -/
def command (s : Session) (line : String) : Reply :=
  match line with
  | ":quit" | ":q" | ":exit" => { say s farewell with goesOn := false }
  | ":help" | ":h" | ":?" => say s help
  | ":clear" => say s clearScreen
  | ":env" =>
    match s.bindings with
    | [] => say s "(no bindings)\n"
    | lines => say s (String.join (lines.map (· ++ "\n")))
  | ":reset" => say s.reset "Bindings cleared.\n"
  | line => say s s!"Unknown command: {line}\nType :help for help.\n"

/-- The answer to an input to the session. -/
def evaluate (s : Session) (input : String) : Reply :=
  let source := Session.sourceFor input
  match s.run source with
  | (.ok _, output, s) => ⟨output, [], s, true⟩
  | (.error e, output, s) => ⟨output, [.ofRunError inputName source e], s, true⟩

/-- The answer to one input. -/
def answer (s : Session) (input : String) : Reply :=
  if input.isEmpty then say s ""
  else if input.startsWith ":" then command s input
  else evaluate s input

/-- Everything that the shell prints and reports from `s` on, for these inputs.
It takes its leave when they end. -/
def converse (s : Session) : List String → ByteArray × List Diagnostic
  | [] => (farewell.toUTF8, [])
  | input :: rest =>
    let reply := answer s input
    if reply.goesOn then
      let (output, diagnostics) := converse reply.session rest
      (reply.output ++ output, reply.diagnostics ++ diagnostics)
    else (reply.output, reply.diagnostics)

end Shell

end Scriptlet
