-- What a command tells its user when something fails: a title and a message,
-- and where the source is at hand, the place in it.
import Scriptlet.Session

namespace Scriptlet

/-! ## Places -/

/-- A place in a source as a reader counts: lines and columns from one. -/
structure Place where
  line : Nat
  column : Nat
  deriving DecidableEq

namespace Place

/-- The characters that end a line of a report. There are more of them than a
line feed, which alone ends a line of the language. -/
def lineEnds : List Char :=
  ['\r', '\n', '\x0b', '\x0c', Char.ofNat 0x85, Char.ofNat 0x2028, Char.ofNat 0x2029]

/-- Whether a line ends with `c` when `rest` follows. A carriage return with a
line feed is one end, and no line starts at the end of the text. -/
def endsLine (c : Char) (rest : List Char) : Bool :=
  lineEnds.contains c && !rest.isEmpty && !(c == '\r' && rest.head? == some '\n')

/-- The place `offset` bytes after `p`, where this text starts. -/
def advance (p : Place) (offset : Nat) : List Char → Place
  | [] => p
  | c :: cs =>
    if offset = 0 then p
    else
      let next := if endsLine c cs then ⟨p.line + 1, 1⟩ else ⟨p.line, p.column + 1⟩
      advance next (offset - c.utf8Size) cs

/-- The place of an offset. -/
def ofOffset (source : String) (offset : Nat) : Place := advance ⟨1, 1⟩ offset source.toList

end Place

/-! ## Diagnostics -/

inductive Diagnostic where
  /-- A message at a place of a file. -/
  | report (title message file : String) (place : Place)
  /-- A message about a whole file. -/
  | titled (title message : String)
  | plain (text : String)

namespace Diagnostic

/-- An error of a source that could not become a program. -/
def ofCompileError (file source : String) (e : CompileError) : Diagnostic :=
  let title := e.part ++ " error"
  match e.span? with
  | some s => .report title e.message file (.ofOffset source s.start)
  | none => .titled title e.message

/-- A fault of a program. It has a place if its node lies in the source. -/
def ofFault (file source : String) (f : Fault) : Diagnostic :=
  match f.span with
  | some s =>
    if s.stop ≤ source.utf8ByteSize then
      .report "Runtime error" f.message file (.ofOffset source s.start)
    else .plain f.display
  | none => .plain f.display

def ofRunError (file source : String) : RunError → Diagnostic
  | .compile e => ofCompileError file source e
  | .runtime f => ofFault file source f

/-- The text of a diagnostic. -/
def text : Diagnostic → String
  | report title message file place =>
    s!"Error: {title}\n  at {file}:{place.line}:{place.column}\n  {message}"
  | titled title message => s!"Error: {title}: {message}"
  | plain t => t

end Diagnostic

end Scriptlet
