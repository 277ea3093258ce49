-- Every state of the parser can still reach the end of a program: brackets,
-- statements and blocks are closed from the inside out. So no state is a dead
-- end, and a token that can stand next starts a program with those before it.
import Scriptlet.Proofs.Parsing

namespace Scriptlet

/-! ## Expressions -/

/-- The symbol that closes a bracket. -/
def Opener.closer : Opener → Symbol
  | .group => .closeParen
  | .index _ | .list _ => .closeBracket

theorem Opener.closer_cases (o : Opener) : o.closer = .closeParen ∨ o.closer = .closeBracket := by
  cases o
  · exact .inl rfl
  · exact .inr rfl
  · exact .inr rfl

namespace ExprReader

theorem closeFrame_closer (frame : Frame) (fs : List Frame) (x : Operand) (span : Span) :
    ∃ y, closeFrame (frame :: fs) x frame.opener.closer span = some (operator fs frame.outer y) := by
  obtain ⟨opener, first, outer⟩ := frame
  cases opener <;> exact ⟨_, rfl⟩

theorem step_closer {r : ExprReader} {frame : Frame} {fs : List Frame} {p : Pending} {x : Operand}
    (h : r.lastOperand? = some (frame :: fs, p, x)) (span : Span) :
    ∃ y, r.step (.symbol frame.opener.closer) span = some (operator fs frame.outer y) := by
  obtain ⟨y, hy⟩ := closeFrame_closer frame fs (p.closeAll x) span
  refine ⟨y, ?_⟩
  rcases frame.opener.closer_cases with hs | hs
  all_goals
    rw [hs] at hy ⊢
    rw [step_of_lastOperand h (by simp)]
    exact hy

/-- After an operand all brackets can be closed. -/
theorem exists_steps_of_lastOperand {r : ExprReader} {fs : List Frame} {p : Pending} {x : Operand}
    (h : r.lastOperand? = some (fs, p, x)) :
    ∃ ts r' p' x', r.steps ts = some r' ∧ r'.lastOperand? = some ([], p', x') := by
  induction fs generalizing r p x with
  | nil => exact ⟨[], r, p, x, rfl, h⟩
  | cons frame fs ih =>
    obtain ⟨y, hstep⟩ := step_closer h default
    obtain ⟨ts, r', p', x', hsteps, hlast⟩ := ih (r := operator fs frame.outer y) rfl
    refine ⟨(.symbol frame.opener.closer, default) :: ts, r', p', x', ?_, hlast⟩
    rw [steps_cons, hstep, Option.bind_some, hsteps]

theorem exists_steps (r : ExprReader) :
    ∃ ts r' p x, r.steps ts = some r' ∧ r'.lastOperand? = some ([], p, x) := by
  cases r with
  | operand fs p =>
    have hlast : (operator fs p ⟨default, default, .number 0 default⟩).lastOperand? =
      some (fs, p, ⟨default, default, .number 0 default⟩) := rfl
    obtain ⟨ts, r', p', x', hsteps, hlast⟩ := exists_steps_of_lastOperand hlast
    exact ⟨(.int 0, default) :: ts, r', p', x', hsteps, hlast⟩
  | identifier => exact exists_steps_of_lastOperand rfl
  | operator => exact exists_steps_of_lastOperand rfl

end ExprReader

/-! ## Statements and blocks -/

/-- The symbol that ends an expression, by what it is read for. -/
def Purpose.closer : Purpose → Symbol
  | .target _ => .closeBracket
  | .cond | .hi .. => .openBrace
  | .lo _ => .range
  | _ => .semicolon

theorem Purpose.binOp?_closer (purpose : Purpose) : purpose.closer.binOp? = none := by
  cases purpose <;> rfl

theorem Purpose.closer_ne_openBracket (purpose : Purpose) : purpose.closer ≠ .openBracket := by
  cases purpose <;> simp [closer]

namespace Parser

/-- Some tokens lead from `p` to the end of a program. -/
def Completes (p : Parser) : Prop := ∃ ts q ss, p.steps ts = some q ∧ q.done? = some ss

theorem Completes.of_steps {p q : Parser} {ts : List (Token × Span)} (hq : p.steps ts = some q)
    (h : q.Completes) : p.Completes := by
  obtain ⟨us, r, ss, hr, hdone⟩ := h
  exact ⟨ts ++ us, r, ss, by rw [steps_append_of_some hq, hr], hdone⟩

theorem Completes.of_step {p q : Parser} {t : Token} {span : Span} (hq : p.step t span = some q)
    (h : q.Completes) : p.Completes := by
  have hsteps : p.steps [(t, span)] = some q := by
    rw [steps_cons, hq]
    rfl
  exact .of_steps hsteps h

theorem exists_closeBlock (done : List Stmt) (block : BlockOwner × List Stmt)
    (outer : List (BlockOwner × List Stmt)) (span : Span) :
    ∃ q done', closeBlock ⟨done, block :: outer⟩ span = some q ∧
      q.boundary? = some ⟨done', outer⟩ := by
  obtain ⟨owner, before⟩ := block
  cases owner <;> exact ⟨_, _, rfl, rfl⟩

theorem completes_of_boundary {p : Parser} {scope : Scope} (h : p.boundary? = some scope) :
    p.Completes := by
  obtain ⟨done, outer⟩ := scope
  induction outer generalizing p done with
  | nil => exact ⟨[], p, done.reverse, rfl, done?_eq_some_iff.2 ⟨done, h, rfl⟩⟩
  | cons block outer ih =>
    obtain ⟨q, done', hq, hboundary⟩ := exists_closeBlock done block outer default
    have hstep : p.step (.symbol .closeBrace) default = some q := by
      rw [step_of_boundary h (by simp)]
      exact hq
    exact .of_step hstep (ih done' hboundary)

/-- A statement that can be ended after its expression can be ended within it. -/
theorem completes_expression {scope : Scope} {first : Span} {purpose : Purpose}
    (h : ∀ x, ∃ q, endExpression scope first purpose x purpose.closer default = some q ∧
      q.Completes) (r : ExprReader) :
    (⟨scope, .expression first purpose r⟩ : Parser).Completes := by
  obtain ⟨ts, r', p, x, hsteps, hlast⟩ := r.exists_steps
  obtain ⟨q, hq, hcompletes⟩ := h (p.closeAll x)
  have hstep := step_of_lastOperand hlast purpose.binOp?_closer purpose.closer_ne_openBracket
    scope first purpose default
  exact .of_steps (steps_expression hsteps scope first purpose)
    (.of_step (hstep.trans hq) hcompletes)

/-- An expression that is the last one before the end of its statement, or
before a block. -/
theorem completes_last {scope : Scope} {first : Span} {purpose : Purpose}
    (h : ∀ x, ∃ q scope', endExpression scope first purpose x purpose.closer default = some q ∧
      q.boundary? = some scope') (r : ExprReader) :
    (⟨scope, .expression first purpose r⟩ : Parser).Completes := by
  refine completes_expression (fun x => ?_) r
  obtain ⟨q, scope', hq, hboundary⟩ := h x
  exact ⟨q, hq, completes_of_boundary hboundary⟩

theorem completes_indexed (scope : Scope) (first : Span) (name : String) (position : Expr) :
    (⟨scope, .indexed first name position⟩ : Parser).Completes := by
  have hstep : (⟨scope, .indexed first name position⟩ : Parser).step (.symbol .assign) default =
    some (reading scope first (.indexAssign name position)) := rfl
  exact .of_step hstep (completes_last (fun x => ⟨_, _, rfl, rfl⟩) _)

theorem completes_purpose (scope : Scope) (first : Span) (purpose : Purpose) (r : ExprReader) :
    (⟨scope, .expression first purpose r⟩ : Parser).Completes := by
  cases purpose with
  | target name =>
    exact completes_expression (fun x => ⟨_, rfl, completes_indexed scope first name x.expr⟩) r
  | lo var =>
    refine completes_expression (fun x => ⟨_, rfl, ?_⟩) r
    exact completes_last (fun y => ⟨_, _, rfl, rfl⟩) _
  | _ => exact completes_last (fun x => ⟨_, _, rfl, rfl⟩) r

theorem completes (p : Parser) : p.Completes := by
  obtain ⟨scope, stage⟩ := p
  cases stage with
  | ready => exact completes_of_boundary rfl
  | afterThen => exact completes_of_boundary rfl
  | afterElse first cond thenBody =>
    have hstep : (⟨scope, .afterElse first cond thenBody⟩ : Parser).step (.symbol .openBrace)
      default = some ⟨scope.enter (.elseBranch first cond thenBody), .ready⟩ := rfl
    exact .of_step hstep (completes_of_boundary rfl)
  | named first name =>
    have hstep : (⟨scope, .named first name⟩ : Parser).step (.symbol .assign) default =
      some (reading scope first (.assign name)) := rfl
    exact .of_step hstep (completes_purpose ..)
  | indexed first name position => exact completes_indexed scope first name position
  | afterFor first =>
    have hvar : (⟨scope, .afterFor first⟩ : Parser).step (.ident "i") default =
      some ⟨scope, .afterVar first "i"⟩ := rfl
    have hin : (⟨scope, .afterVar first "i"⟩ : Parser).step (.symbol .within) default =
      some (reading scope first (.lo "i")) := rfl
    exact .of_step hvar (.of_step hin (completes_purpose ..))
  | afterVar first var =>
    have hin : (⟨scope, .afterVar first var⟩ : Parser).step (.symbol .within) default =
      some (reading scope first (.lo var)) := rfl
    exact .of_step hin (completes_purpose ..)
  | expression first purpose r => exact completes_purpose scope first purpose r

end Parser

end Scriptlet
