-- Reading an expression token by token. The state holds the brackets that are
-- still open and, between two brackets, at most one waiting operator of each
-- family: `max` and `min` bind tightest, then `+` and `-`, and a comparison
-- stands at most once. Operators of one family join from the left.
import Scriptlet.Syntax
import Scriptlet.Token

namespace Scriptlet

/-! ## Operands and waiting operators -/

/-- An expression with its first and last token. Parentheses around it belong
to these tokens and not to the expression. -/
structure Operand where
  first : Span
  last : Span
  expr : Expr

/-- The node that joins two operands. -/
def Operand.join (family : Family) (op : BinOp) (lhs rhs : Operand) : Operand :=
  ⟨lhs.first, rhs.last, .binary family op lhs.expr rhs.expr (.cover lhs.first rhs.last)⟩

/-- The left operands that wait for their right ones, one for each family. -/
structure Pending where
  comparison : Option (Operand × BinOp) := none
  sum : Option (Operand × BinOp) := none
  extremum : Option (Operand × BinOp) := none

namespace Pending

def empty : Pending := {}

def isEmpty (p : Pending) : Bool :=
  p.comparison.isNone && p.sum.isNone && p.extremum.isNone

/-- `x` joined to the operand that waits for it, if there is one. -/
def close (family : Family) (waiting : Option (Operand × BinOp)) (x : Operand) : Operand :=
  match waiting with
  | some (lhs, op) => .join family op lhs x
  | none => x

/-- The operand that ends with `x` and has no operator looser than `max`. -/
def closeExtremum (p : Pending) (x : Operand) : Operand := close .extremum p.extremum x

/-- The operand that ends with `x` and has no operator looser than `+`. -/
def closeSum (p : Pending) (x : Operand) : Operand := close .sum p.sum (p.closeExtremum x)

/-- The whole expression that ends with `x`. -/
def closeAll (p : Pending) (x : Operand) : Operand := close .comparison p.comparison (p.closeSum x)

end Pending

/-! ## Open brackets -/

/-- What an open bracket is for. -/
inductive Opener where
  | group
  | index (name : String)
  /-- A list with the items read so far, the last one first. -/
  | list (items : List Expr)

/-- An open bracket: its purpose, the first token of the operand that it
belongs to, and the operators that wait outside. -/
structure Frame where
  opener : Opener
  first : Span
  outer : Pending

/-! ## The state -/

/-- Where the reader of an expression stands, innermost bracket first. -/
inductive ExprReader where
  /-- An operand comes next. -/
  | operand (frames : List Frame) (pending : Pending)
  /-- A bare identifier was read, which an index may follow. -/
  | identifier (frames : List Frame) (pending : Pending) (name : String) (span : Span)
  /-- An operand was read. -/
  | operator (frames : List Frame) (pending : Pending) (last : Operand)

/-- The operator that a symbol writes. -/
def Symbol.binOp? : Symbol → Option BinOp
  | .max => some .max
  | .min => some .min
  | .plus => some .add
  | .minus => some .sub
  | .greater => some .gt
  | .less => some .lt
  | .equal => some .eq
  | .notEqual => some .ne
  | _ => none

namespace ExprReader

/-- Before the first token of an expression. -/
def start : ExprReader := operand [] .empty

/-- The operand that was read last, with what is around it. -/
def lastOperand? : ExprReader → Option (List Frame × Pending × Operand)
  | operand .. => none
  | identifier fs p name span => some (fs, p, ⟨span, span, .ident name span⟩)
  | operator fs p x => some (fs, p, x)

/-- The whole expression, if it can end here. -/
def complete? (r : ExprReader) : Option Operand :=
  match r.lastOperand? with
  | some ([], p, x) => some (p.closeAll x)
  | _ => none

/-- The state after the operator `op`. A second comparison is refused. -/
def pushOperator (fs : List Frame) (p : Pending) (x : Operand) (op : BinOp) : Option ExprReader :=
  match op.family with
  | .extremum => some (operand fs { p with extremum := some (p.closeExtremum x, op) })
  | .sum => some (operand fs { p with sum := some (p.closeSum x, op), extremum := none })
  | .comparison =>
    match p.comparison with
    | none => some (operand fs ⟨some (p.closeSum x, op), none, none⟩)
    | some _ => none

/-- The state after a bracket or comma that ends the expression `x` of the
innermost bracket. -/
def closeFrame (fs : List Frame) (x : Operand) (s : Symbol) (span : Span) : Option ExprReader :=
  match fs with
  | [] => none
  | ⟨.group, first, outer⟩ :: fs =>
    match s with
    | .closeParen => some (operator fs outer ⟨first, span, x.expr⟩)
    | _ => none
  | ⟨.index name, first, outer⟩ :: fs =>
    match s with
    | .closeBracket =>
      some (operator fs outer ⟨first, span, .index name x.expr (.cover first span)⟩)
    | _ => none
  | ⟨.list items, first, outer⟩ :: fs =>
    match s with
    | .closeBracket =>
      let whole := Expr.list (x.expr :: items).reverse (.cover first span)
      some (operator fs outer ⟨first, span, whole⟩)
    | .comma => some (operand (⟨.list (x.expr :: items), first, outer⟩ :: fs) .empty)
    | _ => none

/-- The state after a symbol that follows the operand `x`. -/
def afterOperand (fs : List Frame) (p : Pending) (x : Operand) (s : Symbol) (span : Span) :
    Option ExprReader :=
  match s.binOp? with
  | some op => pushOperator fs p x op
  | none => closeFrame fs (p.closeAll x) s span

/-- A list that ends where an item could have started: it is empty or its last
item has a comma after it. -/
def closeList (fs : List Frame) (p : Pending) (span : Span) : Option ExprReader :=
  match fs with
  | ⟨.list items, first, outer⟩ :: fs =>
    if p.isEmpty then
      some (operator fs outer ⟨first, span, .list items.reverse (.cover first span)⟩)
    else none
  | _ => none

/-- The state after one more token, if the token can stand there. -/
def step (r : ExprReader) (t : Token) (span : Span) : Option ExprReader :=
  match r, t with
  | operand fs p, .int n => some (operator fs p ⟨span, span, .number n span⟩)
  | operand fs p, .str raw => some (operator fs p ⟨span, span, .str raw span⟩)
  | operand fs p, .ident name => some (identifier fs p name span)
  | operand fs p, .symbol .openParen => some (operand (⟨.group, span, p⟩ :: fs) .empty)
  | operand fs p, .symbol .openBracket => some (operand (⟨.list [], span, p⟩ :: fs) .empty)
  | operand fs p, .symbol .closeBracket => closeList fs p span
  | operand _ _, .symbol _ => none
  | identifier fs p name first, .symbol .openBracket =>
    some (operand (⟨.index name, first, p⟩ :: fs) .empty)
  | identifier fs p name first, .symbol s =>
    afterOperand fs p ⟨first, first, .ident name first⟩ s span
  | operator fs p x, .symbol s => afterOperand fs p x s span
  | _, _ => none

/-! ## What a refused token has ended -/

/-- Whether a symbol can follow some whole expression. -/
def endsExpression : Symbol → Bool
  | .semicolon | .closeParen | .closeBracket | .comma | .range | .openBrace => true
  | _ => false

/-- Whether terminal `t` can still follow once `found` has been refused. A
token that can follow some expression ends the one being read, so that only
such a token is awaited. A second comparison ends the sum before it. -/
def remains (r : ExprReader) (found : Option Terminal) (t : Terminal) : Bool :=
  match r, found with
  | operand .., _ => true
  | _, some (.symbol f) =>
    if endsExpression f then
      match t with
      | .symbol s => endsExpression s
      | _ => false
    else if f.binOp?.isSome then
      match t with
      | .symbol s => endsExpression s || s == .plus || s == .minus
      | _ => false
    else true
  | _, _ => true

end ExprReader

end Scriptlet
