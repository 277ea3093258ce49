-- Running statements. A statement changes bindings, items of lists and the
-- output, and a fault leaves all three as they are at that point. A body has
-- no scope of its own: a loop variable is bound beside all other names and is
-- unbound after the loop.
import Scriptlet.Evaluation
import Scriptlet.Sink

namespace Scriptlet

/-- All that a running program can see and change, with an output of type `σ`. -/
structure WorldOf (σ : Type) where
  env : Environment
  heap : Heap
  sink : σ

/-- The world of a program that prints to a sink. -/
abbrev World := WorldOf Sink

/-- A step of a run. A fault keeps the world as it then is. -/
abbrev Exec (σ : Type) := EStateM Fault (WorldOf σ)

variable {σ : Type}

namespace Exec

/-- An evaluation in the environment of the world. -/
def evaluate {α : Type} (step : Environment → Eval α) : Exec σ α := fun w =>
  match step w.env w.heap with
  | .ok a heap => .ok a { w with heap }
  | .error f heap => .error f { w with heap }

/-- Binds a name. -/
def assign (name : String) (v : Value) : Exec σ Unit :=
  modify fun w => { w with env := w.env.write name v }

/-- Replaces an item of a list. -/
def setItem (r : ListRef) (i : Nat) (v : Value) : Exec σ Unit :=
  modify fun w => { w with heap := w.heap.set r i v }

/-- Unbinds a name and gives the value that it had. -/
def unbind (name : String) : Exec σ (Option Value) :=
  modifyGet fun w => (w.env.get? name, { w with env := w.env.remove name })

/-- Prints a text for the node `s`. -/
def output [Output σ] (s : Span) (text : String) : Exec σ Unit := fun w =>
  match Output.write w.sink text with
  | (sink, none) => .ok () { w with sink }
  | (sink, some message) => .error ⟨.io message, some s⟩ { w with sink }

/-- Flushes the output. -/
def flush [Output σ] : Exec σ Unit := fun w =>
  match Output.flush w.sink with
  | (sink, none) => .ok () { w with sink }
  | (sink, some message) => .error (.ofCause (.io message)) { w with sink }

/-- Prints the value of an expression, with `ending` after it. -/
def printValue [Output σ] (e : Expr) (ending : String) : Exec σ Value := do
  let v ← evaluate fun env => e.eval env
  output e.span ((← get).heap.display v ++ ending)
  return v

/-! ## Loops -/

/-- The integers from `lo` to `hi`, both counted: how many they are. -/
def iterations (lo hi : Int64) : Nat := (hi.toInt - lo.toInt).natAbs + 1

/-- From one counter to the next. -/
def stride (lo hi : Int64) : Int := if lo.toInt ≤ hi.toInt then 1 else -1

/-- Runs a body `n` times, with the counter bound anew before each. -/
def iterate (var : String) (body : Exec σ (Option Value)) (stride : Int) :
    Nat → Int → Exec σ Unit
  | 0, _ => pure ()
  | n + 1, i => do
    assign var (.int (Int64.ofInt i))
    let _ ← body
    iterate var body stride n (i + stride)

/-- Runs a body for every counter from `lo` to `hi`, up or down. The result is
the value that the variable has at the end. -/
def forRange (var : String) (lo hi : Int64) (body : Exec σ (Option Value)) :
    Exec σ (Option Value) := do
  iterate var body (stride lo hi) (iterations lo hi) lo.toInt
  unbind var

end Exec

/-! ## Statements -/

mutual

/-- Runs a statement. Its result is the value assigned or printed, the last
result of the branch taken, or the last value of a loop's variable. -/
def Stmt.exec [Output σ] : Stmt → Exec σ (Option Value)
  | .assign name e _ => do
    let v ← Exec.evaluate fun env => e.eval env
    Exec.assign name v
    return some v
  | .indexAssign name position e s => do
    let i ← Exec.evaluate fun env => position.evalInteger env
    let r ← Exec.evaluate fun env => Eval.listNamed env name s
    let v ← Exec.evaluate fun env => e.eval env
    let i ← Exec.evaluate fun _ => do Eval.ofExcept s ((← get).position r i)
    Exec.setItem r i v
    return some v
  | .print e _ => some <$> Exec.printValue e ""
  | .printLine e _ => some <$> Exec.printValue e "\n"
  | .loop var range body _ => do
    let lo ← Exec.evaluate fun env => range.lo.evalInteger env
    let hi ← Exec.evaluate fun env => range.hi.evalInteger env
    Exec.forRange var lo hi (Stmt.execAll none body)
  | .branch cond thenBody elseBody _ => do
    let taken ← Exec.evaluate fun env => cond.evalBoolean env
    if taken then Stmt.execAll none thenBody
    else
      match elseBody with
      | some elseBody => Stmt.execAll none elseBody
      | none => pure none

/-- Runs statements in order, after one with the result `last`. -/
def Stmt.execAll [Output σ] (last : Option Value) : List Stmt → Exec σ (Option Value)
  | [] => pure last
  | s :: ss => do
    let last ← s.exec
    Stmt.execAll last ss

end

/-- Runs a program and flushes the output, also after a fault. A fault of the
program comes before one of the flush. -/
def Program.run [Output σ] (p : Program) : Exec σ (Option Value) := fun w =>
  match Stmt.execAll none p.stmts w with
  | .ok result w => (do Exec.flush; return result) w
  | .error f w => .error f { w with sink := (Output.flush w.sink).1 }

end Scriptlet
