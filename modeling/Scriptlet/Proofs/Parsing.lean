-- The parser over stretches of tokens. A text is refused at the first token
-- that no state takes, or at its end, and every state between two statements
-- goes on in the same way.
import Scriptlet.Proofs.Grammar
import Scriptlet.Syntax.Parser

namespace Scriptlet

open Grammar (Tokens Operator)

/-! ## Operators -/

theorem operator_iff {f : Family} {s : Symbol} {op : BinOp} :
    Operator f s op ↔ s.binOp? = some op ∧ op.family = f := by
  constructor
  · intro h
    cases h <;> exact ⟨rfl, rfl⟩
  · rintro ⟨h, rfl⟩
    cases s <;> simp only [Symbol.binOp?, Option.some.injEq, reduceCtorEq] at h <;> subst h <;>
      constructor

theorem operator_ne_openBracket {f : Family} {s : Symbol} {op : BinOp} (h : Operator f s op) :
    s ≠ .openBracket := by
  cases h <;> simp

/-! ## Reading an expression -/

namespace ExprReader

/-- The state after some tokens, if each of them can stand where it is. -/
def steps (r : ExprReader) (ts : Tokens) : Option ExprReader :=
  ts.foldlM (fun r t => r.step t.1 t.2) r

@[simp] theorem steps_nil (r : ExprReader) : r.steps [] = some r := rfl

@[simp] theorem steps_cons (r : ExprReader) (t : Token × Span) (ts : Tokens) :
    r.steps (t :: ts) = (r.step t.1 t.2).bind (·.steps ts) := rfl

theorem steps_append (r : ExprReader) (ts us : Tokens) :
    r.steps (ts ++ us) = (r.steps ts).bind (·.steps us) := List.foldlM_append

/-- A symbol after an operand acts on the operand, whether or not an index
could have followed. -/
theorem step_of_lastOperand {r : ExprReader} {fs : List Frame} {p : Pending} {x : Operand}
    (h : r.lastOperand? = some (fs, p, x)) {s : Symbol} (hs : s ≠ .openBracket) (span : Span) :
    r.step (.symbol s) span = afterOperand fs p x s span := by
  cases r with
  | operand => simp [lastOperand?] at h
  | identifier =>
    simp only [lastOperand?, Option.some.injEq, Prod.mk.injEq] at h
    obtain ⟨rfl, rfl, rfl⟩ := h
    simp [step]
  | operator =>
    simp only [lastOperand?, Option.some.injEq, Prod.mk.injEq] at h
    obtain ⟨rfl, rfl, rfl⟩ := h
    rfl

theorem complete?_of_lastOperand {r : ExprReader} {p : Pending} {x : Operand}
    (h : r.lastOperand? = some ([], p, x)) : r.complete? = some (p.closeAll x) := by
  simp [complete?, h]

end ExprReader

/-! ## One token of a statement -/

namespace Parser

theorem step_expression_some {r r' : ExprReader} {t : Token} {span : Span}
    (h : r.step t span = some r') (scope : Scope) (first : Span) (purpose : Purpose) :
    (⟨scope, .expression first purpose r⟩ : Parser).step t span =
      some ⟨scope, .expression first purpose r'⟩ := by
  simp [step, h]

theorem step_expression_none {r : ExprReader} {t : Token} {span : Span}
    (h : r.step t span = none) (scope : Scope) (first : Span) (purpose : Purpose) :
    (⟨scope, .expression first purpose r⟩ : Parser).step t span =
      leaveExpression scope first purpose r t span := by
  simp [step, h]

/-- A symbol that is no operator ends an expression without open brackets. -/
theorem step_of_lastOperand {r : ExprReader} {p : Pending} {x : Operand}
    (h : r.lastOperand? = some ([], p, x)) {s : Symbol} (hop : s.binOp? = none)
    (hs : s ≠ .openBracket) (scope : Scope) (first : Span) (purpose : Purpose) (span : Span) :
    (⟨scope, .expression first purpose r⟩ : Parser).step (.symbol s) span =
      endExpression scope first purpose (p.closeAll x) s span := by
  have hnone : r.step (.symbol s) span = none := by
    rw [ExprReader.step_of_lastOperand h hs, ExprReader.afterOperand, hop]
    rfl
  rw [step_expression_none hnone]
  simp only [leaveExpression, ExprReader.complete?_of_lastOperand h]

/-! ## Between two statements -/

/-- The scope of a parser that stands between two statements. A conditional
without an `else` counts as read. -/
def boundary? (p : Parser) : Option Scope :=
  match p.stage with
  | .ready => some p.scope
  | .afterThen first cond body last =>
    some (p.scope.push (.branch cond body none (.cover first last)))
  | _ => none

theorem step_of_boundary {p : Parser} {scope : Scope} (h : p.boundary? = some scope)
    {t : Token} (ht : t ≠ .symbol .otherwise) (span : Span) :
    p.step t span = begin scope t span := by
  obtain ⟨sc, stage⟩ := p
  cases stage <;> simp only [boundary?, Option.some.injEq, reduceCtorEq] at h <;> subst h
  · rfl
  · simp [step]

theorem done?_eq_some_iff {p : Parser} {ss : List Stmt} :
    p.done? = some ss ↔ ∃ done, p.boundary? = some ⟨done, []⟩ ∧ ss = done.reverse := by
  obtain ⟨⟨done, outer⟩, stage⟩ := p
  cases outer <;> cases stage <;> simp [done?, boundary?, Scope.push, eq_comm]

/-! ## Runs -/

/-- The state after some tokens, if each of them can stand where it is. -/
def steps (p : Parser) (ts : Tokens) : Option Parser :=
  ts.foldlM (fun p t => p.step t.1 t.2) p

@[simp] theorem steps_nil (p : Parser) : p.steps [] = some p := rfl

@[simp] theorem steps_cons (p : Parser) (t : Token × Span) (ts : Tokens) :
    p.steps (t :: ts) = (p.step t.1 t.2).bind (·.steps ts) := rfl

theorem steps_append (p : Parser) (ts us : Tokens) :
    p.steps (ts ++ us) = (p.steps ts).bind (·.steps us) := List.foldlM_append

theorem steps_append_of_some {p q : Parser} {ts : Tokens} (h : p.steps ts = some q)
    (us : Tokens) : p.steps (ts ++ us) = q.steps us := by
  rw [steps_append, h, Option.bind_some]

theorem steps_expression {r r' : ExprReader} {ts : Tokens} (h : r.steps ts = some r')
    (scope : Scope) (first : Span) (purpose : Purpose) :
    (⟨scope, .expression first purpose r⟩ : Parser).steps ts =
      some ⟨scope, .expression first purpose r'⟩ := by
  induction ts generalizing r with
  | nil => simp_all
  | cons t ts ih =>
    rw [ExprReader.steps_cons] at h
    obtain ⟨m, hm, hr⟩ := Option.bind_eq_some_iff.1 h
    rw [steps_cons, step_expression_some hm]
    exact ih hr

theorem run_eq_ok_iff {lines : LineIndex} {p : Parser} {i stop : Nat} {ts : Tokens}
    {program : Program} :
    run lines p i stop ts = .ok program ↔
      ∃ q, p.steps ts = some q ∧ q.done? = some program.stmts := by
  induction ts generalizing p i stop with
  | nil =>
    unfold run
    split
    · next ss hs => obtain ⟨ss'⟩ := program; simp [hs]
    · next hs => simp [hs]
  | cons t ts ih =>
    unfold run
    rcases hstep : p.step t.1 t.2 with _ | q
    · simp [hstep]
    · simp [hstep, ih]

/-- Where a run is refused: at a token that cannot stand there, or at the end. -/
inductive Refused (lines : LineIndex) (p : Parser) (i stop : Nat) (ts : Tokens) :
    SyntaxError → Prop
  | token {us t span vs q} :
    ts = us ++ (t, span) :: vs → p.steps us = some q → q.step t span = none →
    Refused lines p i stop ts ⟨i + us.length, some t, span, q.expected (some t.terminal)⟩
  | finish {q last} :
    p.steps ts = some q → q.done? = none → last = (ts.getLast?.map (·.2.stop)).getD stop →
    Refused lines p i stop ts
      ⟨i + ts.length, none, lines.span last (last + 1), q.expected none⟩

theorem refused_of_run {lines : LineIndex} {p : Parser} {i stop : Nat} {ts : Tokens}
    {e : SyntaxError} (h : run lines p i stop ts = .error e) : Refused lines p i stop ts e := by
  induction ts generalizing p i stop with
  | nil =>
    unfold run at h
    split at h
    · cases h
    · next hs => cases h; exact .finish rfl hs rfl
  | cons t ts ih =>
    obtain ⟨t, span⟩ := t
    unfold run at h
    rcases hstep : p.step t span with _ | q
    · simp only [hstep, Except.error.injEq] at h
      subst h
      exact .token (List.nil_append _).symm (steps_nil p) hstep
    · simp only [hstep] at h
      cases ih h with
      | @token us _ _ _ q' heq hus hnone =>
        have hsteps : p.steps ((t, span) :: us) = some q' := by
          rw [steps_cons, hstep, Option.bind_some, hus]
        have hlength : i + 1 + us.length = i + ((t, span) :: us).length := by
          simp only [List.length_cons]; omega
        rw [hlength]
        exact .token (by rw [heq, List.cons_append]) hsteps hnone
      | @finish q' _ hts hdone hlast =>
        have hsteps : p.steps ((t, span) :: ts) = some q' := by
          rw [steps_cons, hstep, Option.bind_some, hts]
        have hlength : i + 1 + ts.length = i + ((t, span) :: ts).length := by
          simp only [List.length_cons]; omega
        rw [hlength]
        refine .finish hsteps hdone ?_
        rw [hlast, List.getLast?_cons]
        cases ts.getLast? <;> rfl

end Parser

end Scriptlet
