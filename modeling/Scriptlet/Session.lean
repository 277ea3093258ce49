-- An interactive session. Its inputs share one environment, and an input that
-- is an expression and not a program is printed.
import Scriptlet.Compile
import Scriptlet.Execution

namespace Scriptlet

/-! ## Running a source text -/

/-- Why an input has no result. -/
inductive RunError where
  | compile (e : CompileError)
  | runtime (f : Fault)

/-- The outcome of running the program that a compilation gave, and the world
after it. A text that does not compile changes nothing. -/
def runCompiled {σ : Type} [Output σ] (program : Except CompileError Program) (w : WorldOf σ) :
    Except RunError (Option Value) × WorldOf σ :=
  match program with
  | .error e => (.error (.compile e), w)
  | .ok p =>
    match p.run w with
    | .ok result w => (.ok result, w)
    | .error f w => (.error (.runtime f), w)

/-- The outcome of running a source text, and the world after it. -/
def runSource {σ : Type} [Output σ] (source : String) (w : WorldOf σ) :
    Except RunError (Option Value) × WorldOf σ :=
  runCompiled (compile source) w

/-! ## Sessions -/

/-- What the inputs of a session share. -/
structure Session where
  env : Environment
  heap : Heap

namespace Session

def start : Session := ⟨.empty, .empty⟩

/-- Whether a text is a program. -/
def compiles (source : String) : Bool := (compile source).isOk

theorem compiles_iff {source : String} :
    compiles source = true ↔ ∃ p, compile source = .ok p := by
  unfold compiles
  cases compile source with
  | error e => simp [Except.isOk, Except.toBool]
  | ok p => simp [Except.isOk, Except.toBool]

theorem compiles_eq_false_iff {source : String} :
    compiles source = false ↔ ∀ p, compile source ≠ .ok p := by
  rw [Bool.eq_false_iff, ne_eq, compiles_iff, not_exists]

/-- The text to run for an input: the input itself if it is a program, or else
the statement that prints it if that is one. -/
def sourceFor (input : String) : String :=
  if compiles input then input
  else
    let printed := "println " ++ input ++ ";"
    if compiles printed then printed else input

/-- Runs a text into an empty sink: the outcome, what was printed and the
session after it. Bindings made before a fault are kept. -/
def run (s : Session) (source : String) : Except RunError (Option Value) × ByteArray × Session :=
  match runSource source (⟨s.env, s.heap, .unlimited⟩ : World) with
  | (result, w) => (result, w.sink.written, ⟨w.env, w.heap⟩)

/-- The bindings in the order of their names, one line each. -/
def bindings (s : Session) : List String :=
  s.env.bindings.map fun (name, v) => name ++ " = " ++ s.heap.describe v

def reset (s : Session) : Session := ⟨.empty, s.heap⟩

end Session

end Scriptlet
