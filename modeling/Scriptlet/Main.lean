-- The program itself: arguments, files and the terminal. Everything that it
-- answers comes from the modules below.
import Scriptlet.Command

namespace Scriptlet

namespace Main

/-- The number of a system error, which may come negated. -/
def errorNumber (code : UInt32) : Nat := min code.toNat (-code).toNat

/-- The text of a file, or why it has none. -/
def readFile (file : String) : IO (Except ReadFailure String) := do
  try
    let bytes ← IO.FS.readBinFile file
    match String.fromUTF8? bytes with
    | some text => return .ok text
    | none => return .error .notText
  catch e =>
    match e with
    | .noFileOrDirectory .. => return .error .notFound
    | .inappropriateType _ code _ =>
      return .error (if errorNumber code = 20 then .notDirectory else .isDirectory)
    | .invalidArgument _ code _ =>
      return .error (if errorNumber code = 36 then .nameTooLong else .other (toString e))
    | e => return .error (.other (toString e))

def emit (output : ByteArray) (diagnostics : List Diagnostic) : IO Unit := do
  let stdout ← IO.getStdout
  stdout.write output
  stdout.flush
  for d in diagnostics do
    IO.eprintln d.text

/-- Answers the lines of the standard input, one at a time. -/
partial def converse (stdin : IO.FS.Stream) (s : Session) : IO Unit := do
  let line ← stdin.getLine
  if line.isEmpty then
    emit Shell.farewell.toUTF8 []
  else
    let input := (Shell.inputs [] line.toList).headD ""
    let reply := Shell.answer s input
    emit reply.output reply.diagnostics
    if reply.goesOn then converse stdin reply.session

end Main

end Scriptlet

open Scriptlet in
def main (args : List String) : IO UInt32 := do
  match CommandLine.request? args with
  | some (.onFile action file) =>
    let outcome := Command.onFile action file (← Main.readFile file)
    Main.emit outcome.output outcome.diagnostics
    return outcome.code.toUInt32
  | some .repl =>
    Main.emit Shell.banner.toUTF8 []
    Main.converse (← IO.getStdin) .start
    return 0
  | none =>
    IO.eprint Command.helpText
    return 2
  | _ =>
    let outcome := Command.perform (fun _ => .error .notFound) "" args
    Main.emit outcome.output outcome.diagnostics
    return outcome.code.toUInt32
