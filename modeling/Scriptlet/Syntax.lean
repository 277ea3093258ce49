-- Syntax trees. Every node carries the stretch of text that it was read from.
-- A tree can also come from elsewhere, so an operator may stand on a node of
-- a family that it does not belong to.
import Scriptlet.Span

namespace Scriptlet

/-! ## Operators -/

inductive BinOp where
  | add | sub | max | min | gt | lt | eq | ne
  deriving DecidableEq

def BinOp.symbol : BinOp → String
  | add => "+"
  | sub => "-"
  | max => "max"
  | min => "min"
  | gt => ">"
  | lt => "<"
  | eq => "=="
  | ne => "!="

/-- The kinds of node that join two operands, from the tightest to the
loosest. -/
inductive Family where
  | extremum | sum | comparison
  deriving DecidableEq

/-- The name of a family in messages. -/
def Family.name : Family → String
  | extremum => "min/max expression"
  | sum => "arithmetic expression"
  | comparison => "comparison"

/-- The family whose nodes an operator belongs on. -/
def BinOp.family : BinOp → Family
  | max | min => .extremum
  | add | sub => .sum
  | gt | lt | eq | ne => .comparison

/-! ## Expressions -/

/-- An expression. A string keeps its quotes as written. -/
inductive Expr where
  | number (value : Int64) (span : Span)
  | str (raw : String) (span : Span)
  | ident (name : String) (span : Span)
  | list (items : List Expr) (span : Span)
  | index (name : String) (position : Expr) (span : Span)
  | binary (family : Family) (op : BinOp) (lhs rhs : Expr) (span : Span)
  deriving Inhabited

def Expr.span : Expr → Span
  | number _ s | str _ s | ident _ s | list _ s | index _ _ s | binary _ _ _ _ s => s

/-- The bounds of a loop, both of them counted. -/
structure Range where
  lo : Expr
  hi : Expr
  span : Span

/-! ## Statements -/

inductive Stmt where
  | assign (name : String) (value : Expr) (span : Span)
  | indexAssign (name : String) (position value : Expr) (span : Span)
  | print (value : Expr) (span : Span)
  | printLine (value : Expr) (span : Span)
  | loop (var : String) (range : Range) (body : List Stmt) (span : Span)
  | branch (cond : Expr) (thenBody : List Stmt) (elseBody : Option (List Stmt)) (span : Span)

def Stmt.span : Stmt → Span
  | assign _ _ s | indexAssign _ _ _ s | print _ s | printLine _ s | loop _ _ _ s
  | branch _ _ _ s => s

/-- A program runs its statements in order. -/
structure Program where
  stmts : List Stmt

end Scriptlet
