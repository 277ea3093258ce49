-- Evaluating expressions. An expression reads the environment and the heap,
-- and all that it does to them is to make new lists. Operands are evaluated
-- from the left, and an index after the list that it points into.
import Scriptlet.Environment
import Scriptlet.Syntax
import Scriptlet.Value.Indexing
import Scriptlet.Value.Operation

namespace Scriptlet

/-- A step of evaluation: it may make lists, and it may end in a fault. -/
abbrev Eval := EStateM Fault Heap

namespace Eval

/-- The result of `r`, with a fault placed at the node `s` unless it has a
place. -/
def ofExcept {α : Type} (s : Span) : Except Fault α → Eval α
  | .ok a => pure a
  | .error f => throw (f.within s)

/-- A fault at the node `s`. -/
def fail {α : Type} (s : Span) (cause : FaultCause) : Eval α := throw ⟨cause, some s⟩

/-- What `view` gives for the value of the node `s`, which must be of the kind
`expected`. -/
def ofKind {α : Type} (expected : Kind) (view : Value → Option α) (s : Span) (v : Value) :
    Eval α := do
  match view v with
  | some a => return a
  | none => throw (((← get).mismatch expected v).within s)

/-- The integer that the node `s` came to. -/
def integer : Span → Value → Eval Int64 := ofKind .int Value.int?

/-- The boolean that the node `s` came to. -/
def boolean : Span → Value → Eval Bool := ofKind .bool Value.bool?

/-- The list that a name is bound to, for the node `s`. -/
def listNamed (env : Environment) (name : String) (s : Span) : Eval ListRef := do
  let v ← ofExcept s (env.read name)
  ofKind .list Value.list? s v

end Eval

/-! ## Operators -/

namespace BinOp

/-- The right value if it stands to the left one as `wanted` says, and the left
one otherwise. -/
def pick (h : Heap) (op : BinOp) (wanted : Ordering) (v w : Value) : Except Fault Value :=
  match v.compare? w with
  | some order => .ok (if order = wanted then w else v)
  | none => .error (h.unsupported op.symbol v w)

/-- The result of an operation, which must have one. -/
def perform (h : Heap) (op : BinOp) (operation : Operation) (v w : Value) : Except Fault Value :=
  match operation.apply h v w with
  | .error f => .error f
  | .ok (some r) => .ok r
  | .ok none => .error (h.unsupported op.symbol v w)

/-- The opposite of a boolean. -/
def opposite : Value → Value
  | .bool b => .bool !b
  | v => v

/-- The result of an operator on two values. -/
def apply (h : Heap) (op : BinOp) (v w : Value) : Except Fault Value :=
  match op with
  | max => op.pick h .lt v w
  | min => op.pick h .gt v w
  | add => h.add v w
  | sub => h.subtract v w
  | gt => op.perform h .greater v w
  | lt => op.perform h .less v w
  | eq => op.perform h .equal v w
  | ne => (op.perform h .equal v w).map opposite

end BinOp

/-! ## Expressions -/

/-- The text of a string literal: what is between its quotes. A literal without
both of them is its own text. -/
def unquote (raw : String) : String :=
  match raw.toList with
  | '"' :: cs => if cs.getLast? = some '"' then String.ofList cs.dropLast else raw
  | _ => raw

mutual

/-- The value of an expression. -/
def Expr.eval (env : Environment) : Expr → Eval Value
  | .number n _ => pure (.int n)
  | .str raw _ => pure (.str (unquote raw))
  | .ident name s => .ofExcept s (env.read name)
  | .list items _ => do
    let vs ← Expr.evalAll env items
    let r ← modifyGet fun h => h.alloc vs
    return .list r
  | .index name position s => do
    let r ← Eval.listNamed env name s
    let i ← Eval.integer position.span (← position.eval env)
    Eval.ofExcept s ((← get).item r i)
  | .binary family op lhs rhs s =>
    if op.family = family then do
      let v ← lhs.eval env
      let w ← rhs.eval env
      Eval.ofExcept s (op.apply (← get) v w)
    else Eval.fail s (.unknownOperator op.symbol family.name)

/-- The values of expressions, from the left. -/
def Expr.evalAll (env : Environment) : List Expr → Eval (List Value)
  | [] => pure []
  | e :: es => do
    let v ← e.eval env
    let vs ← Expr.evalAll env es
    return v :: vs

end

/-- The integer that an expression comes to. -/
def Expr.evalInteger (env : Environment) (e : Expr) : Eval Int64 := do
  Eval.integer e.span (← e.eval env)

/-- The boolean that an expression comes to. -/
def Expr.evalBoolean (env : Environment) (e : Expr) : Eval Bool := do
  Eval.boolean e.span (← e.eval env)

end Scriptlet
