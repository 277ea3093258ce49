-- From tokens to a program. The parser takes one token at a time: its state
-- is the statement that it is in and the blocks around that. A token is
-- refused at once when it cannot stand where it is, and the refusal names
-- every terminal that can.
import Scriptlet.LineIndex
import Scriptlet.Syntax.ExprReader

namespace Scriptlet

/-! ## The state -/

/-- The statement that an open block belongs to. -/
inductive BlockOwner where
  | loop (first : Span) (var : String) (range : Range)
  | thenBranch (first : Span) (cond : Expr)
  | elseBranch (first : Span) (cond : Expr) (thenBody : List Stmt)

/-- The statements read so far in the innermost block, the last one first, and
each enclosing block's owner with the statements before that owner. -/
structure Scope where
  done : List Stmt
  outer : List (BlockOwner × List Stmt)

namespace Scope

def start : Scope := ⟨[], []⟩

def push (s : Scope) (stmt : Stmt) : Scope := { s with done := stmt :: s.done }

/-- The scope inside a new block. -/
def enter (s : Scope) (owner : BlockOwner) : Scope := ⟨[], (owner, s.done) :: s.outer⟩

end Scope

/-- What an expression of a statement is read for. -/
inductive Purpose where
  | assign (name : String)
  | target (name : String)
  | indexAssign (name : String) (position : Expr)
  | print
  | printLine
  | cond
  | lo (var : String)
  | hi (var : String) (lo : Operand)

/-- Where a statement stands. Each form but `ready` has the first token of the
statement. -/
inductive Stage where
  /-- Between two statements. -/
  | ready
  /-- After the `then` block of a conditional, which an `else` may follow. -/
  | afterThen (first : Span) (cond : Expr) (thenBody : List Stmt) (last : Span)
  | afterElse (first : Span) (cond : Expr) (thenBody : List Stmt)
  /-- After the identifier that starts a statement. -/
  | named (first : Span) (name : String)
  /-- After the index of an assignment's target. -/
  | indexed (first : Span) (name : String) (position : Expr)
  | afterFor (first : Span)
  | afterVar (first : Span) (var : String)
  | expression (first : Span) (purpose : Purpose) (reader : ExprReader)

structure Parser where
  scope : Scope
  stage : Stage

namespace Parser

def start : Parser := ⟨.start, .ready⟩

/-! ## One token -/

/-- The parser after a whole statement. -/
def finish (scope : Scope) (stmt : Stmt) : Parser := ⟨scope.push stmt, .ready⟩

/-- The parser at the start of an expression. -/
def reading (scope : Scope) (first : Span) (purpose : Purpose) : Parser :=
  ⟨scope, .expression first purpose .start⟩

/-- The parser after the bracket that closes the innermost block. -/
def closeBlock (scope : Scope) (last : Span) : Option Parser :=
  match scope.outer with
  | [] => none
  | (.loop first var range, before) :: outer =>
    some (finish ⟨before, outer⟩ (.loop var range scope.done.reverse (.cover first last)))
  | (.thenBranch first cond, before) :: outer =>
    some ⟨⟨before, outer⟩, .afterThen first cond scope.done.reverse last⟩
  | (.elseBranch first cond thenBody, before) :: outer =>
    some (finish ⟨before, outer⟩
      (.branch cond thenBody (some scope.done.reverse) (.cover first last)))

/-- The parser after the first token of a statement, or after the end of a
block. -/
def begin (scope : Scope) (t : Token) (span : Span) : Option Parser :=
  match t with
  | .ident name => some ⟨scope, .named span name⟩
  | .symbol .print => some (reading scope span .print)
  | .symbol .println => some (reading scope span .printLine)
  | .symbol .loop => some ⟨scope, .afterFor span⟩
  | .symbol .cond => some (reading scope span .cond)
  | .symbol .closeBrace => closeBlock scope span
  | _ => none

/-- The parser after the symbol that ends the expression `x` of a statement. -/
def endExpression (scope : Scope) (first : Span) (purpose : Purpose) (x : Operand) (s : Symbol)
    (last : Span) : Option Parser :=
  match purpose, s with
  | .assign name, .semicolon => some (finish scope (.assign name x.expr (.cover first last)))
  | .target name, .closeBracket => some ⟨scope, .indexed first name x.expr⟩
  | .indexAssign name position, .semicolon =>
    some (finish scope (.indexAssign name position x.expr (.cover first last)))
  | .print, .semicolon => some (finish scope (.print x.expr (.cover first last)))
  | .printLine, .semicolon => some (finish scope (.printLine x.expr (.cover first last)))
  | .cond, .openBrace => some ⟨scope.enter (.thenBranch first x.expr), .ready⟩
  | .lo var, .range => some (reading scope first (.hi var x))
  | .hi var lo, .openBrace =>
    some ⟨scope.enter (.loop first var ⟨lo.expr, x.expr, .cover lo.first x.last⟩), .ready⟩
  | _, _ => none

/-- The parser after a token that ends the expression being read. -/
def leaveExpression (scope : Scope) (first : Span) (purpose : Purpose) (r : ExprReader)
    (t : Token) (span : Span) : Option Parser :=
  match t, r.complete? with
  | .symbol s, some x => endExpression scope first purpose x s span
  | _, _ => none

/-- The parser after one more token, if the token can stand there. -/
def step (p : Parser) (t : Token) (span : Span) : Option Parser :=
  match p.stage, t with
  | .ready, t => begin p.scope t span
  | .afterThen first cond thenBody _, .symbol .otherwise =>
    some ⟨p.scope, .afterElse first cond thenBody⟩
  | .afterThen first cond thenBody last, t =>
    begin (p.scope.push (.branch cond thenBody none (.cover first last))) t span
  | .afterElse first cond thenBody, .symbol .openBrace =>
    some ⟨p.scope.enter (.elseBranch first cond thenBody), .ready⟩
  | .named first name, .symbol .assign => some (reading p.scope first (.assign name))
  | .named first name, .symbol .openBracket => some (reading p.scope first (.target name))
  | .indexed first name position, .symbol .assign =>
    some (reading p.scope first (.indexAssign name position))
  | .afterFor first, .ident var => some ⟨p.scope, .afterVar first var⟩
  | .afterVar first var, .symbol .within => some (reading p.scope first (.lo var))
  | .expression first purpose r, t =>
    match r.step t span with
    | some r => some ⟨p.scope, .expression first purpose r⟩
    | none => leaveExpression p.scope first purpose r t span
  | _, _ => none

/-- The statements of a text that ends here. -/
def done? (p : Parser) : Option (List Stmt) :=
  match p.scope.outer, p.stage with
  | [], .ready => some p.scope.done.reverse
  | [], .afterThen first cond thenBody last =>
    some (p.scope.push (.branch cond thenBody none (.cover first last))).done.reverse
  | _, _ => none

/-! ## Refusals -/

/-- Whether a token of this kind can stand next. -/
def accepts (p : Parser) (t : Terminal) : Bool := (p.step t.sample default).isSome

/-- Whether terminal `t` can still follow once `found`, or the end of the text,
has been refused. A refused bracket or end also ends a conditional without an
`else`. -/
def remains (p : Parser) (found : Option Terminal) (t : Terminal) : Bool :=
  match p.stage with
  | .expression _ _ r => r.remains found t
  | .afterThen .. =>
    match found with
    | none | some (.symbol .closeBrace) => t != .symbol .otherwise
    | _ => true
  | _ => true

/-- The terminals that are awaited where `found`, or the end of the text, has
been refused. -/
def expected (p : Parser) (found : Option Terminal) : List Terminal :=
  Terminal.all.filter fun t => p.accepts t && p.remains found t

end Parser

/-- A token that cannot stand where it is, or the end of a text that is not
whole. -/
structure SyntaxError where
  /-- How many tokens stand before the place. -/
  index : Nat
  /-- The token there, or none at the end of the text. -/
  found : Option Token
  span : Span
  expected : List Terminal

namespace SyntaxError

/-- Names in double quotes, with commas between them and `or` before the last
one. -/
def alternatives : List Terminal → String
  | [] => ""
  | [t] => quoted t
  | [t, u] => quoted t ++ " or " ++ quoted u
  | t :: ts => quoted t ++ ", " ++ alternatives ts
where
  quoted (t : Terminal) : String := "\"" ++ t.name ++ "\""

def message (e : SyntaxError) : String :=
  let place := match e.found with
    | some t => s!"Unrecognized token `{t.text}` found at {e.span.start}:{e.span.stop}"
    | none => s!"Unrecognized EOF found at {e.span.start}"
  place ++ "\nExpected one of " ++ alternatives e.expected

end SyntaxError

/-! ## Whole texts -/

/-- Feeds tokens to a parser that has taken `index` tokens, the last of which
ends at `stop`. The end of the text is refused as the byte after that. -/
def Parser.run (lines : LineIndex) (p : Parser) (index stop : Nat) :
    List (Token × Span) → Except SyntaxError Program
  | [] =>
    match p.done? with
    | some stmts => .ok ⟨stmts⟩
    | none => .error ⟨index, none, lines.span stop (stop + 1), p.expected none⟩
  | (t, span) :: rest =>
    match p.step t span with
    | some p => Parser.run lines p (index + 1) span.stop rest
    | none => .error ⟨index, some t, span, p.expected (some t.terminal)⟩

/-- Tokens with the lines that their offsets have in a text. -/
def LineIndex.locate (lines : LineIndex) (tokens : List (Token × Span)) : List (Token × Span) :=
  tokens.map fun (t, span) => (t, lines.span span.start span.stop)

/-- The program that a list of tokens writes, which stand in this source. -/
def parse (source : String) (tokens : List (Token × Span)) : Except SyntaxError Program :=
  let lines := LineIndex.ofText source
  Parser.run lines .start 0 0 (lines.locate tokens)

end Scriptlet
