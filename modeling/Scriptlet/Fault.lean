-- What stops a program while it runs.
import Scriptlet.Span
import Scriptlet.Suggestion

namespace Scriptlet

/-- A cause of a fault. Values are kept as the descriptions that they had when
it arose. -/
inductive FaultCause where
  /-- A name that nothing is bound to, with one to suggest. -/
  | undeclaredVariable (name : String) (suggestion : Option String)
  /-- An operator on a node of another family. -/
  | unknownOperator (operator node : String)
  /-- An operator between values of kinds that it does not join. -/
  | unsupportedOperation (operator lhs rhs : String)
  | indexOutOfBounds (index : Int64) (length : Nat)
  /-- A value of the wrong kind. -/
  | typeMismatch (expected got : String)
  /-- A result outside of 64 bits. -/
  | integerOverflow (operator : String) (lhs rhs : Int64)
  /-- Output that could not be written. -/
  | io (message : String)

def FaultCause.message : FaultCause → String
  | undeclaredVariable name suggestion =>
    s!"undeclared variable: {name}" ++ Suggestion.hint suggestion
  | unknownOperator operator node => s!"unknown operator `{operator}` in {node}"
  | unsupportedOperation operator lhs rhs =>
    s!"unsupported operation: {operator} between {lhs} and {rhs}"
  | indexOutOfBounds index length => s!"index {index.toInt} out of bounds for length {length}"
  | typeMismatch expected got => s!"type mismatch: expected {expected}, got {got}"
  | integerOverflow operator lhs rhs => s!"integer overflow: {lhs.toInt} {operator} {rhs.toInt}"
  | io m => s!"IO error: {m}"

/-- A fault, with the node that it arose at where that is known. -/
structure Fault where
  cause : FaultCause
  span : Option Span

namespace Fault

/-- A fault at no known node. -/
def ofCause (cause : FaultCause) : Fault := ⟨cause, none⟩

/-- The fault seen from a node around it. The innermost node is kept. -/
def within (s : Span) (f : Fault) : Fault := { f with span := f.span.or (some s) }

def message (f : Fault) : String := f.cause.message

/-- The one-line form, with the line where it is known. -/
def display (f : Fault) : String :=
  match f.span with
  | some s => s!"Runtime error at line {s.line}: {f.message}"
  | none => s!"Runtime error: {f.message}"

end Fault

end Scriptlet
