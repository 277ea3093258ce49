-- Reading a program from its JSON form. A record may be an object with its
-- fields in any order and further ones between them, or the array of all its
-- fields in order. Containers nest up to a limit, and what stands in a field
-- that no record has does not count.
import Scriptlet.Integer
import Scriptlet.Json.Parser
import Scriptlet.Syntax.Encode

namespace Scriptlet

namespace Decode

/-! ## Records and forms -/

/-- How many containers may stand around the innermost one, itself counted. -/
def depthLimit : Nat := 127

/-- The contents of the fields of an object that are called `name`. -/
def contentsOf (name : String) (fields : List (Json.Text × Json)) : List Json :=
  (fields.filter fun f => f.1 = .whole name).map Prod.snd

/-- The content of the one field that is called `name`, or none if there is no
such field. Two of them are refused. -/
def field? (fields : List (Json.Text × Json)) (name : String) : Option (Option Json) :=
  match contentsOf name fields with
  | [] => some none
  | [v] => some (some v)
  | _ => none

def isText : Json.Text → Bool
  | .whole _ => true
  | .broken _ => false

/-- The contents of a record's fields, in the order of `names`. An object may
lack some of them; its keys are texts. -/
def record? (names : List String) : Json → Option (List (Option Json))
  | .obj fields => if fields.all fun f => isText f.1 then names.mapM (field? fields) else none
  | .arr items => if items.length = names.length then some (items.map some) else none
  | _ => none

/-- The name and content of a form. -/
def variant? : Json → Option (String × Json)
  | .obj [(.whole name, content)] => some (name, content)
  | _ => none

/-! ## Scalars -/

def string? : Json → Option String
  | .str (.whole s) => some s
  | _ => none

def number? : Json → Option Int64
  | .int n => integer? n
  | _ => none

/-- A number of 64 bits without a sign. -/
def offset? : Json → Option Nat
  | .int n => if 0 ≤ n ∧ n.toNat < UInt64.size then some n.toNat else none
  | _ => none

/-- All operators. -/
def operators : List BinOp := [.add, .sub, .max, .min, .gt, .lt, .eq, .ne]

def operator? (tag : String) : Option BinOp := operators.find? fun op => op.tag == tag

def families : List Family := [.extremum, .sum, .comparison]

def family? (tag : String) : Option Family := families.find? fun f => f.tag == tag

/-! ## Parts of a node

The first argument is how many more containers may be opened. -/

/-- An operator is a string, or a form of that name without content. -/
def binOp? : Nat → Json → Option BinOp
  | _, .str (.whole tag) => operator? tag
  | 0, _ => none
  | _ + 1, j =>
    match variant? j with
    | some (tag, .null) => operator? tag
    | _ => none

def span? : Nat → Json → Option Span
  | 0, _ => none
  | _ + 1, j =>
    match record? ["start", "end", "line"] j with
    | some [some start, some stop, some line] => do
      return ⟨← offset? start, ← offset? stop, ← offset? line⟩
    | _ => none

/-- The content of a node and where it stands. -/
def node? : Nat → Json → Option (Json × Span)
  | 0, _ => none
  | depth + 1, j =>
    match record? ["node", "span"] j with
    | some [some content, some span] => (span? depth span).map (content, ·)
    | _ => none

/-! ## Expressions -/

mutual

/-- An expression whose content may open `depth` containers. The node itself is
one more around it. -/
def expr? : Nat → Json → Option Expr
  | 0, _ => none
  | depth + 1, j => do
    let (content, span) ← node? (depth + 1) j
    exprForm? depth content span

/-- The expression of a node with this content. -/
def exprForm? : Nat → Json → Span → Option Expr
  | 0, _, _ => none
  | depth + 1, j, span =>
    match variant? j with
    | some ("Number", j) => (number? j).map (.number · span)
    | some ("Str", j) => (string? j).map (.str · span)
    | some ("Ident", j) => (string? j).map (.ident · span)
    | some ("List", j) => (exprs? depth j).map (.list · span)
    | some ("Index", j) => (index? depth j).map fun (name, position) => .index name position span
    | some (tag, j) => do
      let family ← family? tag
      let (op, lhs, rhs) ← operands? depth j
      return .binary family op lhs rhs span
    | none => none

def exprs? : Nat → Json → Option (List Expr)
  | 0, _ => none
  | depth + 1, .arr items => items.mapM (expr? depth)
  | _, _ => none

/-- An indexed name. -/
def index? : Nat → Json → Option (String × Expr)
  | 0, _ => none
  | depth + 1, j =>
    match record? ["name", "index"] j with
    | some [some name, some position] => do return (← string? name, ← expr? depth position)
    | _ => none

/-- An operator with its operands. -/
def operands? : Nat → Json → Option (BinOp × Expr × Expr)
  | 0, _ => none
  | depth + 1, j =>
    match record? ["op", "lhs", "rhs"] j with
    | some [some op, some lhs, some rhs] => do
      return (← binOp? depth op, ← expr? depth lhs, ← expr? depth rhs)
    | _ => none

end

/-! ## Statements -/

def range? : Nat → Json → Option Range
  | 0, _ => none
  | 1, _ => none
  | depth + 2, j => do
    let (content, span) ← node? (depth + 2) j
    match record? ["lo", "hi"] content with
    | some [some lo, some hi] => return ⟨← expr? depth lo, ← expr? depth hi, span⟩
    | _ => none

mutual

def stmt? : Nat → Json → Option Stmt
  | 0, _ => none
  | depth + 1, j => do
    let (content, span) ← node? (depth + 1) j
    stmtForm? depth content span

/-- The statement of a node with this content. -/
def stmtForm? : Nat → Json → Span → Option Stmt
  | 0, _, _ => none
  | depth + 1, j, span =>
    match variant? j with
    | some ("Print", j) => (expr? depth j).map (.print · span)
    | some ("PrintLine", j) => (expr? depth j).map (.printLine · span)
    | some ("Assign", j) => assign? depth j span
    | some ("IndexAssign", j) => indexAssign? depth j span
    | some ("For", j) => loop? depth j span
    | some ("If", j) => branch? depth j span
    | _ => none

def assign? : Nat → Json → Span → Option Stmt
  | 0, _, _ => none
  | depth + 1, j, span =>
    match record? ["name", "value"] j with
    | some [some name, some value] => do
      return .assign (← string? name) (← expr? depth value) span
    | _ => none

def indexAssign? : Nat → Json → Span → Option Stmt
  | 0, _, _ => none
  | depth + 1, j, span =>
    match record? ["target", "value"] j with
    | some [some target, some value] => do
      let (name, position) ← index? depth target
      return .indexAssign name position (← expr? depth value) span
    | _ => none

def loop? : Nat → Json → Span → Option Stmt
  | 0, _, _ => none
  | depth + 1, j, span =>
    match record? ["var", "range", "body"] j with
    | some [some var, some range, some body] => do
      return .loop (← string? var) (← range? depth range) (← stmts? depth body) span
    | _ => none

/-- A conditional. Its `else` may be missing or null. -/
def branch? : Nat → Json → Span → Option Stmt
  | 0, _, _ => none
  | depth + 1, j, span =>
    match record? ["cond", "then_body", "else_body"] j with
    | some [some cond, some thenBody, none] => do
      return .branch (← expr? depth cond) (← stmts? depth thenBody) none span
    | some [some cond, some thenBody, some .null] => do
      return .branch (← expr? depth cond) (← stmts? depth thenBody) none span
    | some [some cond, some thenBody, some elseBody] => do
      return .branch (← expr? depth cond) (← stmts? depth thenBody)
        (some (← stmts? depth elseBody)) span
    | _ => none

def stmts? : Nat → Json → Option (List Stmt)
  | 0, _ => none
  | depth + 1, .arr items => items.mapM (stmt? depth)
  | _, _ => none

end

def program? : Nat → Json → Option Program
  | 0, _ => none
  | depth + 1, j =>
    match record? ["stmts"] j with
    | some [some stmts] => (stmts? depth stmts).map (⟨·⟩)
    | _ => none

end Decode

/-- The program whose JSON form is this text. -/
def Program.ofJson? (source : String) : Option Program :=
  (Json.parse? source).bind (Decode.program? Decode.depthLimit)

end Scriptlet
