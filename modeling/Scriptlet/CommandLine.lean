-- What the arguments of the program ask for. Options may stand anywhere before
-- a `--`, which makes everything after it a file.
import Scriptlet.Diagnostic

namespace Scriptlet

/-- What to do with one file. -/
inductive FileAction where
  | run
  | runTree
  | parse
  | tokens
  deriving DecidableEq

/-- What the program is asked for. -/
inductive Request where
  | onFile (action : FileAction) (file : String)
  | repl
  | version
  | help

namespace CommandLine

/-! ## Arguments so far -/

/-- The command that was named. -/
inductive Verb where
  | run | parse | tokens | repl
  deriving DecidableEq

def verb? : String → Option Verb
  | "run" => some .run
  | "parse" => some .parse
  | "tokens" => some .tokens
  | "repl" => some .repl
  | _ => none

/-- The arguments read so far. -/
structure Given where
  verb : Option Verb := none
  file : Option String := none
  tree : Bool := false

/-- Either more arguments are read, or a request is met at once. -/
inductive Progress where
  | more (g : Given)
  | met (r : Request)

/-! ## One argument -/

/-- A short option. Verbosity is about logs, which change nothing here. -/
def short (g : Given) (c : Char) : Option Progress :=
  match c with
  | 'v' => some (.more g)
  | 'h' => some (.met .help)
  | 'V' => if g.verb.isNone then some (.met .version) else none
  | _ => none

/-- Short options that share one dash. -/
def shorts (g : Given) : List Char → Option Progress
  | [] => some (.more g)
  | c :: cs =>
    match short g c with
    | some (.more g) => shorts g cs
    | other => other

def long (g : Given) (option : String) : Option Progress :=
  match option with
  | "--verbose" => some (.more g)
  | "--help" => some (.met .help)
  | "--version" => if g.verb.isNone then some (.met .version) else none
  | "--ast" =>
    if g.verb = some .run && !g.tree then some (.more { g with tree := true }) else none
  | _ => none

/-- An argument that is no option: a command, or else its file. -/
def operand (g : Given) (arg : String) : Option Progress :=
  match g.verb with
  | none => (verb? arg).map fun v => .more { g with verb := some v }
  | some .repl => none
  | some _ =>
    if g.file.isNone && !arg.isEmpty then some (.more { g with file := some arg }) else none

/-- One argument. After a `--` nothing is an option or a command. -/
def argument (g : Given) (literal : Bool) (arg : String) : Option Progress :=
  if literal then
    if g.verb.isNone then none else operand g arg
  else if arg.startsWith "--" then long g arg
  else
    match arg.toList with
    | '-' :: c :: cs => shorts g (c :: cs)
    | _ => operand g arg

/-! ## All arguments -/

/-- Whether what follows `help` can be explained: nothing, or one command. -/
def isTopic : List String → Bool
  | [] => true
  | [name] => name = "help" || (verb? name).isSome
  | _ => false

/-- The request that the arguments make once there are no more. -/
def Given.request? (g : Given) : Option Request :=
  match g.verb, g.file with
  | some .run, some file => some (.onFile (if g.tree then .runTree else .run) file)
  | some .parse, some file => some (.onFile .parse file)
  | some .tokens, some file => some (.onFile .tokens file)
  | some .repl, none => some .repl
  | _, _ => none

/-- Reads the rest of the arguments. -/
def readFrom (g : Given) (literal : Bool) : List String → Option Request
  | [] => g.request?
  | arg :: args =>
    if arg = "--" ∧ ¬literal then readFrom g true args
    else if arg = "help" ∧ g.verb.isNone ∧ ¬literal then
      if isTopic args then some .help else none
    else
      match argument g literal arg with
      | some (.more g) => readFrom g literal args
      | some (.met r) => some r
      | none => none

/-- The request that the arguments make, or none if they make no sense. -/
def request? (args : List String) : Option Request := readFrom {} false args

end CommandLine

end Scriptlet
