-- The JSON forms of a tree. A record may be an object with its fields in any order, with
-- any others between them, or the array of its fields; a missing `else` may be null or
-- left out; an operator may be a string or the name of null. The number beside a form
-- bounds how many containers nest in it, where what stands in other fields does not count.
import Scriptlet.Proofs.Decoding.Records
import Scriptlet.Syntax.Encode

namespace Scriptlet

/-- What may stand for a part of a tree, each with a bound on how many containers nest in
it outside of the fields that are ignored. -/
abbrev FormsIn (α : Type) := Nat → α → Prop

/-- The documents that stand for something. -/
abbrev Forms := FormsIn Json

namespace Forms

/-- One document without containers. -/
def scalar (v : Json) : Forms := fun _ w => w = v

/-- A number of 64 bits without a sign. -/
def offset (k : Nat) : Forms := fun _ w => k < UInt64.size ∧ w = .ofNat k

/-- One more container, of which `holds` tells the content. -/
def around {α : Type} (holds : Json → α → Prop) (content : FormsIn α) : Forms
  | 0, _ => False
  | n + 1, w => ∃ c, content n c ∧ holds w c

@[simp] theorem not_around_zero {α : Type} (holds : Json → α → Prop) (content : FormsIn α)
    (w : Json) : ¬around holds content 0 w := id

/-- Parts one by one. -/
def each {α : Type} (parts : List (FormsIn α)) : FormsIn (List α) := fun n cs =>
  List.Forall₂ (fun part c => part n c) parts cs

/-- Content of the form that `name` names. The object has no field beside it. -/
def variant (name : String) (content : Forms) : Forms :=
  around (fun w v => w = .variant name v) content

def array (items : List Forms) : Forms := around (fun w vs => w = .arr vs) (each items)

/-- The content of a field that must be there. -/
def given (content : Forms) : FormsIn (Option Json) := fun n field =>
  ∃ v, field = some v ∧ content n v

/-- The content of a field for nothing, which may as well be missing. -/
def nothing : FormsIn (Option Json) := fun _ field => field = none ∨ field = some .null

def record (fields : List (String × FormsIn (Option Json))) : Forms :=
  around (fun w contents => w.IsRecord (fields.map Prod.fst) contents)
    (each (fields.map Prod.snd))

end Forms

/-! ## Parts of a node -/

def Span.forms (s : Span) : Forms :=
  .record [("start", Forms.given (.offset s.start)), ("end", Forms.given (.offset s.stop)),
    ("line", Forms.given (.offset s.line))]

/-- A node: its content and where it stands. -/
def Forms.node (content : Forms) (s : Span) : Forms :=
  .record [("node", given content), ("span", given s.forms)]

def BinOp.forms (op : BinOp) : Forms := fun n w =>
  Forms.scalar (.ofString op.tag) n w ∨ Forms.variant op.tag (.scalar .null) n w

/-! ## Expressions -/

/-- An indexed name. -/
def Forms.index (name : String) (position : Forms) : Forms :=
  .record [("name", given (.scalar (.ofString name))), ("index", given position)]

def Forms.operands (op : BinOp) (lhs rhs : Forms) : Forms :=
  .record [("op", given op.forms), ("lhs", given lhs), ("rhs", given rhs)]

mutual

/-- The forms of what the node of an expression contains. -/
def Expr.contentForms : Expr → Forms
  | .number n _ => .variant "Number" (.scalar (.int n.toInt))
  | .str raw _ => .variant "Str" (.scalar (.ofString raw))
  | .ident name _ => .variant "Ident" (.scalar (.ofString name))
  | .list items _ => .variant "List" (.array (Expr.allForms items))
  | .index name position _ =>
    .variant "Index" (.index name (.node position.contentForms position.span))
  | .binary family op lhs rhs _ =>
    .variant family.tag
      (.operands op (.node lhs.contentForms lhs.span) (.node rhs.contentForms rhs.span))

def Expr.allForms : List Expr → List Forms
  | [] => []
  | e :: es => .node e.contentForms e.span :: Expr.allForms es

end

def Expr.forms (e : Expr) : Forms := .node e.contentForms e.span

/-! ## Statements -/

def Forms.bounds (lo hi : Forms) : Forms := .record [("lo", given lo), ("hi", given hi)]

def Range.forms (r : Range) : Forms := .node (.bounds r.lo.forms r.hi.forms) r.span

def Forms.assign (name : String) (value : Forms) : Forms :=
  .record [("name", given (.scalar (.ofString name))), ("value", given value)]

def Forms.indexAssign (name : String) (position value : Forms) : Forms :=
  .record [("target", given (.index name position)), ("value", given value)]

def Forms.loop (var : String) (range body : Forms) : Forms :=
  .record [("var", given (.scalar (.ofString var))), ("range", given range), ("body", given body)]

def Forms.branch (cond thenBody : Forms) (elseBody : FormsIn (Option Json)) : Forms :=
  .record [("cond", given cond), ("then_body", given thenBody), ("else_body", elseBody)]

mutual

/-- The forms of what the node of a statement contains. -/
def Stmt.contentForms : Stmt → Forms
  | .assign name value _ => .variant "Assign" (.assign name value.forms)
  | .indexAssign name position value _ =>
    .variant "IndexAssign" (.indexAssign name position.forms value.forms)
  | .print value _ => .variant "Print" value.forms
  | .printLine value _ => .variant "PrintLine" value.forms
  | .loop var range body _ =>
    .variant "For" (.loop var range.forms (.array (Stmt.allForms body)))
  | .branch cond thenBody elseBody _ =>
    .variant "If" (.branch cond.forms (.array (Stmt.allForms thenBody)) (Stmt.elseForms elseBody))

/-- The content of the field for an `else`. -/
def Stmt.elseForms : Option (List Stmt) → FormsIn (Option Json)
  | none => Forms.nothing
  | some body => Forms.given (.array (Stmt.allForms body))

def Stmt.allForms : List Stmt → List Forms
  | [] => []
  | s :: ss => .node s.contentForms s.span :: Stmt.allForms ss

end

def Stmt.forms (s : Stmt) : Forms := .node s.contentForms s.span

def Program.forms (p : Program) : Forms :=
  .record [("stmts", Forms.given (.array (Stmt.allForms p.stmts)))]

theorem Expr.allForms_eq_map (es : List Expr) : Expr.allForms es = es.map Expr.forms := by
  induction es with
  | nil => rw [Expr.allForms, List.map_nil]
  | cons e es ih => rw [Expr.allForms, List.map_cons, ih, Expr.forms]

theorem Stmt.allForms_eq_map (ss : List Stmt) : Stmt.allForms ss = ss.map Stmt.forms := by
  induction ss with
  | nil => rw [Stmt.allForms, List.map_nil]
  | cons s ss ih => rw [Stmt.allForms, List.map_cons, ih, Stmt.forms]

end Scriptlet
