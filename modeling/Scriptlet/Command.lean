-- Carrying out requests. A command gets the contents of its file, and its
-- outcome is an exit code with what it prints and reports.
import Scriptlet.CommandLine
import Scriptlet.Shell
import Scriptlet.Token.Listing

namespace Scriptlet

/-- Why a file has no text. -/
inductive ReadFailure where
  | notFound
  | isDirectory
  | notDirectory
  | nameTooLong
  | notText
  | other (message : String)

def ReadFailure.message : ReadFailure → String
  | notFound => "No such file or directory (os error 2)"
  | isDirectory => "Is a directory (os error 21)"
  | notDirectory => "Not a directory (os error 20)"
  | nameTooLong => "File name too long (os error 36)"
  | notText => "stream did not contain valid UTF-8"
  | other m => m

/-- What a command leaves behind. -/
structure Outcome where
  code : Nat
  output : ByteArray
  diagnostics : List Diagnostic

namespace Outcome

def success (output : ByteArray) : Outcome := ⟨0, output, []⟩

def failure (output : ByteArray) (d : Diagnostic) : Outcome := ⟨1, output, [d]⟩

/-- Arguments that make no sense. -/
def usage : Outcome := ⟨2, .empty, []⟩

end Outcome

namespace Command

def versionText : String := "cinder 0.1.0\n"

def helpText : String :=
  "Cinder - a small scripting language\n\n"
    ++ "Usage: cinder [OPTIONS] <COMMAND>\n\n"
    ++ "Commands:\n"
    ++ "  run     Run a Cinder program\n"
    ++ "  parse   Parse and dump the syntax tree as JSON\n"
    ++ "  tokens  Tokenize and dump tokens (debug)\n"
    ++ "  repl    Start the interactive shell\n"

/-- Runs a program. The source is what diagnostics of the run point into. -/
def runProgram (file source : String) (p : Program) : Outcome :=
  match p.run (⟨.empty, .empty, .unlimited⟩ : World) with
  | .ok _ w => .success w.sink.written
  | .error f w => .failure w.sink.written (.ofFault file source f)

/-- What an action does with a file of this text. -/
def onText (action : FileAction) (file source : String) : Outcome :=
  let refused (e : CompileError) := Outcome.failure .empty (.ofCompileError file source e)
  match action with
  | .run =>
    match compile source with
    | .ok p => runProgram file source p
    | .error e => refused e
  | .runTree =>
    match readTree source with
    | .ok p => runProgram file "" p
    | .error e => refused e
  | .parse =>
    match compile source with
    | .ok p => .success (p.toJson.pretty ++ "\n").toUTF8
    | .error e => refused e
  | .tokens =>
    match tokenize source with
    | .ok tokens =>
      .success (String.join (tokens.map fun (t, s) => t.listing s ++ "\n")).toUTF8
    | .error e => refused e.toCompileError

/-- What an action does with a file that was read, or could not be. -/
def onFile (action : FileAction) (file : String) : Except ReadFailure String → Outcome
  | .ok source => onText action file source
  | .error e => .failure .empty (.plain s!"Error: cannot read {file}: {e.message}")

/-- What the shell does when its input is this text. -/
def repl (input : String) : Outcome :=
  let (output, diagnostics) := Shell.converse .start (Shell.inputs [] input.toList)
  ⟨0, Shell.banner.toUTF8 ++ output, diagnostics⟩

/-- The outcome of the program for some arguments, where `read` gives the text
of a file and `input` is the standard input. -/
def perform (read : String → Except ReadFailure String) (input : String) (args : List String) :
    Outcome :=
  match CommandLine.request? args with
  | none => .usage
  | some .version => .success versionText.toUTF8
  | some .help => .success helpText.toUTF8
  | some (.onFile action file) => onFile action file (read file)
  | some .repl => repl input

end Command

end Scriptlet
