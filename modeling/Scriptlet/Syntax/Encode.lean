-- The JSON form of a program. A node is an object of its content and its
-- span; what has several forms is an object whose one key names the form.
import Scriptlet.Json.Printer
import Scriptlet.Syntax

namespace Scriptlet

/-! ## Parts of a node -/

def Span.toJson (s : Span) : Json :=
  .ofFields [("start", .ofNat s.start), ("end", .ofNat s.stop), ("line", .ofNat s.line)]

/-- A node: its content and where it stands. -/
def Json.node (content : Json) (span : Span) : Json :=
  .ofFields [("node", content), ("span", span.toJson)]

/-- Content of the form that `name` names. -/
def Json.variant (name : String) (content : Json) : Json := .ofFields [(name, content)]

/-- The name of an operator in the JSON form. -/
def BinOp.tag : BinOp → String
  | add => "Add"
  | sub => "Sub"
  | max => "Max"
  | min => "Min"
  | gt => "Gt"
  | lt => "Lt"
  | eq => "Eq"
  | ne => "Ne"

/-- The name of a family's nodes in the JSON form. -/
def Family.tag : Family → String
  | extremum => "MinMax"
  | sum => "AddSub"
  | comparison => "Compare"

/-! ## Expressions -/

/-- An indexed name, as it stands in an expression and in an assignment. -/
def Json.index (name : String) (position : Json) : Json :=
  .ofFields [("name", .ofString name), ("index", position)]

mutual

def Expr.toJson : Expr → Json
  | .number n s => .node (.variant "Number" (.int n.toInt)) s
  | .str raw s => .node (.variant "Str" (.ofString raw)) s
  | .ident name s => .node (.variant "Ident" (.ofString name)) s
  | .list items s => .node (.variant "List" (.arr (Expr.allToJson items))) s
  | .index name position s => .node (.variant "Index" (.index name position.toJson)) s
  | .binary family op lhs rhs s =>
    .node (.variant family.tag (.ofFields
      [("op", .ofString op.tag), ("lhs", lhs.toJson), ("rhs", rhs.toJson)])) s

def Expr.allToJson : List Expr → List Json
  | [] => []
  | e :: es => e.toJson :: Expr.allToJson es

end

/-! ## Statements -/

def Range.toJson (r : Range) : Json :=
  .node (.ofFields [("lo", r.lo.toJson), ("hi", r.hi.toJson)]) r.span

mutual

def Stmt.toJson : Stmt → Json
  | .assign name value s =>
    .node (.variant "Assign" (.ofFields [("name", .ofString name), ("value", value.toJson)])) s
  | .indexAssign name position value s =>
    .node (.variant "IndexAssign" (.ofFields
      [("target", .index name position.toJson), ("value", value.toJson)])) s
  | .print value s => .node (.variant "Print" value.toJson) s
  | .printLine value s => .node (.variant "PrintLine" value.toJson) s
  | .loop var range body s =>
    .node (.variant "For" (.ofFields
      [("var", .ofString var), ("range", range.toJson), ("body", .arr (Stmt.allToJson body))])) s
  | .branch cond thenBody none s =>
    .node (.variant "If" (.ofFields
      [("cond", cond.toJson), ("then_body", .arr (Stmt.allToJson thenBody)),
        ("else_body", .null)])) s
  | .branch cond thenBody (some elseBody) s =>
    .node (.variant "If" (.ofFields
      [("cond", cond.toJson), ("then_body", .arr (Stmt.allToJson thenBody)),
        ("else_body", .arr (Stmt.allToJson elseBody))])) s

def Stmt.allToJson : List Stmt → List Json
  | [] => []
  | s :: ss => s.toJson :: Stmt.allToJson ss

end

def Program.toJson (p : Program) : Json := .ofFields [("stmts", .arr (Stmt.allToJson p.stmts))]

end Scriptlet
