-- Parsing moved tokens. A state of the parser holds stretches that it never looks
-- at: with all of them changed it takes the same tokens, awaits the same terminals
-- and comes to the same statements with those stretches changed.
import Scriptlet.Proofs.Grammar.Moving
import Scriptlet.Proofs.Grammar.Refusal

namespace Scriptlet

open Grammar (Tokens)

theorem Expr.mapAllSpans_reverse (f : Span → Span) (es : List Expr) :
    Expr.mapAllSpans f es.reverse = (Expr.mapAllSpans f es).reverse := by
  simp only [mapAllSpans_eq_map, List.map_reverse]

theorem Stmt.mapAllSpans_reverse (f : Span → Span) (ss : List Stmt) :
    Stmt.mapAllSpans f ss.reverse = (Stmt.mapAllSpans f ss).reverse := by
  simp only [mapAllSpans_eq_map, List.map_reverse]

/-! ## States with other stretches -/

section States

variable (f : Span → Span)

def Operand.mapSpans (x : Operand) : Operand := ⟨f x.first, f x.last, x.expr.mapSpans f⟩

/-- The operand that waits, if there is one, with its stretches changed. -/
def Pending.mapWaiting (waiting : Option (Operand × BinOp)) : Option (Operand × BinOp) :=
  waiting.map fun w => (w.1.mapSpans f, w.2)

def Pending.mapSpans (p : Pending) : Pending :=
  ⟨mapWaiting f p.comparison, mapWaiting f p.sum, mapWaiting f p.extremum⟩

def Opener.mapSpans : Opener → Opener
  | group => group
  | index name => index name
  | list items => list (Expr.mapAllSpans f items)

def Frame.mapSpans (frame : Frame) : Frame :=
  ⟨frame.opener.mapSpans f, f frame.first, frame.outer.mapSpans f⟩

def ExprReader.mapSpans : ExprReader → ExprReader
  | operand fs p => operand (fs.map (Frame.mapSpans f)) (p.mapSpans f)
  | identifier fs p name span =>
    identifier (fs.map (Frame.mapSpans f)) (p.mapSpans f) name (f span)
  | operator fs p last => operator (fs.map (Frame.mapSpans f)) (p.mapSpans f) (last.mapSpans f)

def BlockOwner.mapSpans : BlockOwner → BlockOwner
  | loop first var range => loop (f first) var (range.mapSpans f)
  | thenBranch first cond => thenBranch (f first) (cond.mapSpans f)
  | elseBranch first cond thenBody =>
    elseBranch (f first) (cond.mapSpans f) (Stmt.mapAllSpans f thenBody)

def Scope.mapSpans (scope : Scope) : Scope :=
  ⟨Stmt.mapAllSpans f scope.done,
    scope.outer.map fun block => (block.1.mapSpans f, Stmt.mapAllSpans f block.2)⟩

def Purpose.mapSpans : Purpose → Purpose
  | assign name => assign name
  | target name => target name
  | indexAssign name position => indexAssign name (position.mapSpans f)
  | print => print
  | printLine => printLine
  | cond => cond
  | lo var => lo var
  | hi var x => hi var (x.mapSpans f)

def Stage.mapSpans : Stage → Stage
  | ready => ready
  | afterThen first cond thenBody last =>
    afterThen (f first) (cond.mapSpans f) (Stmt.mapAllSpans f thenBody) (f last)
  | afterElse first cond thenBody =>
    afterElse (f first) (cond.mapSpans f) (Stmt.mapAllSpans f thenBody)
  | named first name => named (f first) name
  | indexed first name position => indexed (f first) name (position.mapSpans f)
  | afterFor first => afterFor (f first)
  | afterVar first var => afterVar (f first) var
  | expression first purpose reader =>
    expression (f first) (purpose.mapSpans f) (reader.mapSpans f)

def Parser.mapSpans (p : Parser) : Parser := ⟨p.scope.mapSpans f, p.stage.mapSpans f⟩

end States

/-! ## One token of an expression -/

section Steps

variable {f : Span → Span} (hf : ∀ a b, f (.cover a b) = .cover (f a) (f b))

include hf in
theorem Operand.join_mapSpans (family : Family) (op : BinOp) (lhs rhs : Operand) :
    join family op (lhs.mapSpans f) (rhs.mapSpans f) = (join family op lhs rhs).mapSpans f := by
  simp only [join, mapSpans, Expr.mapSpans, hf]

namespace Pending

theorem isEmpty_mapSpans (f : Span → Span) (p : Pending) :
    (p.mapSpans f).isEmpty = p.isEmpty := by
  simp [isEmpty, mapSpans, mapWaiting]

include hf

theorem close_mapSpans (family : Family) (waiting : Option (Operand × BinOp)) (x : Operand) :
    close family (mapWaiting f waiting) (x.mapSpans f) = (close family waiting x).mapSpans f := by
  cases waiting with
  | none => rfl
  | some w => exact Operand.join_mapSpans hf family w.2 w.1 x

theorem closeExtremum_mapSpans (p : Pending) (x : Operand) :
    (p.mapSpans f).closeExtremum (x.mapSpans f) = (p.closeExtremum x).mapSpans f :=
  close_mapSpans hf ..

theorem closeSum_mapSpans (p : Pending) (x : Operand) :
    (p.mapSpans f).closeSum (x.mapSpans f) = (p.closeSum x).mapSpans f := by
  unfold closeSum
  rw [closeExtremum_mapSpans hf]
  exact close_mapSpans hf ..

theorem closeAll_mapSpans (p : Pending) (x : Operand) :
    (p.mapSpans f).closeAll (x.mapSpans f) = (p.closeAll x).mapSpans f := by
  unfold closeAll
  rw [closeSum_mapSpans hf]
  exact close_mapSpans hf ..

end Pending

namespace ExprReader

theorem lastOperand?_mapSpans (f : Span → Span) (r : ExprReader) :
    (r.mapSpans f).lastOperand? = r.lastOperand?.map fun (fs, p, x) =>
      (fs.map (Frame.mapSpans f), p.mapSpans f, x.mapSpans f) := by
  cases r <;> rfl

theorem remains_mapSpans (f : Span → Span) (r : ExprReader) (found : Option Terminal)
    (t : Terminal) : (r.mapSpans f).remains found t = r.remains found t := by
  cases r <;> rcases found with _ | _ | _ | _ | _ <;> rfl

include hf

theorem complete?_mapSpans (r : ExprReader) :
    (r.mapSpans f).complete? = r.complete?.map (Operand.mapSpans f) := by
  unfold complete?
  rw [lastOperand?_mapSpans]
  rcases r.lastOperand? with _ | ⟨_ | ⟨frame, fs⟩, p, x⟩
  · rfl
  · exact congrArg some (p.closeAll_mapSpans hf x)
  · rfl

theorem pushOperator_mapSpans (fs : List Frame) (p : Pending) (x : Operand) (op : BinOp) :
    pushOperator (fs.map (Frame.mapSpans f)) (p.mapSpans f) (x.mapSpans f) op =
      (pushOperator fs p x op).map (mapSpans f) := by
  unfold pushOperator
  rw [p.closeExtremum_mapSpans hf, p.closeSum_mapSpans hf]
  cases op.family with
  | extremum => rfl
  | sum => rfl
  | comparison =>
    obtain ⟨comparison, sum, extremum⟩ := p
    cases comparison <;> rfl

theorem closeFrame_mapSpans (fs : List Frame) (x : Operand) (s : Symbol) (span : Span) :
    closeFrame (fs.map (Frame.mapSpans f)) (x.mapSpans f) s (f span) =
      (closeFrame fs x s span).map (mapSpans f) := by
  rcases fs with _ | ⟨⟨opener, first, outer⟩, fs⟩
  · rfl
  · cases opener with
    | group => cases s <;> rfl
    | index name =>
      cases s with
      | closeBracket =>
        simp only [List.map_cons, closeFrame, Frame.mapSpans, Opener.mapSpans, Option.map_some,
          mapSpans, Operand.mapSpans, Expr.mapSpans, hf]
      | _ => rfl
    | list items =>
      cases s with
      | closeBracket =>
        have hitems := Expr.mapAllSpans_reverse f (x.expr :: items)
        rw [Expr.mapAllSpans] at hitems
        simp only [List.map_cons, closeFrame, Frame.mapSpans, Opener.mapSpans, Option.map_some,
          mapSpans, Operand.mapSpans, Expr.mapSpans, hf, hitems]
      | _ => rfl

theorem afterOperand_mapSpans (fs : List Frame) (p : Pending) (x : Operand) (s : Symbol)
    (span : Span) :
    afterOperand (fs.map (Frame.mapSpans f)) (p.mapSpans f) (x.mapSpans f) s (f span) =
      (afterOperand fs p x s span).map (mapSpans f) := by
  unfold afterOperand
  cases s.binOp? with
  | some op => exact pushOperator_mapSpans hf ..
  | none =>
    rw [p.closeAll_mapSpans hf]
    exact closeFrame_mapSpans hf ..

theorem closeList_mapSpans (fs : List Frame) (p : Pending) (span : Span) :
    closeList (fs.map (Frame.mapSpans f)) (p.mapSpans f) (f span) =
      (closeList fs p span).map (mapSpans f) := by
  rcases fs with _ | ⟨⟨opener, first, outer⟩, fs⟩
  · rfl
  · cases opener with
    | list items =>
      simp only [List.map_cons, closeList, Frame.mapSpans, Opener.mapSpans, p.isEmpty_mapSpans]
      split
      · simp only [Option.map_some, mapSpans, Operand.mapSpans, Expr.mapSpans, hf,
          Expr.mapAllSpans_reverse]
      · rfl
    | _ => rfl

theorem step_mapSpans (r : ExprReader) (t : Token) (span : Span) :
    (r.mapSpans f).step t (f span) = (r.step t span).map (mapSpans f) := by
  cases r with
  | operand fs p =>
    cases t with
    | symbol s =>
      cases s with
      | closeBracket => exact closeList_mapSpans hf fs p span
      | _ => rfl
    | _ => rfl
  | identifier fs p name first =>
    cases t with
    | symbol s =>
      by_cases hs : s = .openBracket
      · subst hs
        rfl
      · rw [step_of_lastOperand (lastOperand?_mapSpans f _) hs, step_of_lastOperand rfl hs]
        exact afterOperand_mapSpans hf fs p ⟨first, first, .ident name first⟩ s span
    | _ => rfl
  | operator fs p x =>
    cases t with
    | symbol s => exact afterOperand_mapSpans hf fs p x s span
    | _ => rfl

end ExprReader

/-! ## One token of a program -/

namespace Parser

include hf

theorem closeBlock_mapSpans (scope : Scope) (last : Span) :
    closeBlock (scope.mapSpans f) (f last) = (closeBlock scope last).map (mapSpans f) := by
  obtain ⟨done, outer⟩ := scope
  rcases outer with _ | ⟨⟨owner, before⟩, outer⟩
  · rfl
  · cases owner <;>
      simp only [Scope.mapSpans, List.map_cons, closeBlock, BlockOwner.mapSpans, finish,
        Scope.push, Option.map_some, mapSpans, Stage.mapSpans, Stmt.mapSpans, Stmt.mapAllSpans,
        Stmt.mapAllSpans_reverse, hf]

theorem begin_mapSpans (scope : Scope) (t : Token) (span : Span) :
    begin (scope.mapSpans f) t (f span) = (begin scope t span).map (mapSpans f) := by
  cases t with
  | symbol s =>
    cases s with
    | closeBrace => exact closeBlock_mapSpans hf scope span
    | _ => rfl
  | _ => rfl

theorem endExpression_mapSpans (scope : Scope) (first : Span) (purpose : Purpose) (x : Operand)
    (s : Symbol) (last : Span) :
    endExpression (scope.mapSpans f) (f first) (purpose.mapSpans f) (x.mapSpans f) s (f last) =
      (endExpression scope first purpose x s last).map (mapSpans f) := by
  by_cases hs : s = purpose.closer
  · subst hs
    cases purpose with
    | target | lo => rfl
    | _ =>
      simp only [Purpose.closer, Purpose.mapSpans, endExpression, finish, Scope.push,
        Scope.enter, Scope.mapSpans, Option.map_some, mapSpans, Stage.mapSpans, Stmt.mapSpans,
        Stmt.mapAllSpans, Operand.mapSpans, BlockOwner.mapSpans, Range.mapSpans, List.map_cons,
        hf]
  · cases purpose <;> cases s <;> first | rfl | exact absurd rfl hs

theorem leaveExpression_mapSpans (scope : Scope) (first : Span) (purpose : Purpose)
    (r : ExprReader) (t : Token) (span : Span) :
    leaveExpression (scope.mapSpans f) (f first) (purpose.mapSpans f) (r.mapSpans f) t (f span) =
      (leaveExpression scope first purpose r t span).map (mapSpans f) := by
  unfold leaveExpression
  rw [r.complete?_mapSpans hf]
  cases t with
  | symbol s =>
    cases r.complete? with
    | none => rfl
    | some x => exact endExpression_mapSpans hf scope first purpose x s span
  | _ => cases r.complete? <;> rfl

theorem boundary?_mapSpans (p : Parser) :
    (p.mapSpans f).boundary? = p.boundary?.map (Scope.mapSpans f) := by
  obtain ⟨scope, stage⟩ := p
  cases stage with
  | afterThen =>
    simp only [mapSpans, Stage.mapSpans, boundary?, Option.map_some, Scope.push, Scope.mapSpans,
      Stmt.mapAllSpans, Stmt.mapSpans, hf]
  | _ => rfl

theorem step_mapSpans (p : Parser) (t : Token) (span : Span) :
    (p.mapSpans f).step t (f span) = (p.step t span).map (mapSpans f) := by
  obtain ⟨scope, stage⟩ := p
  cases stage with
  | ready => exact begin_mapSpans hf scope t span
  | afterThen first cond body last =>
    by_cases ht : t = .symbol .otherwise
    · subst ht
      rfl
    · have hboundary := boundary?_mapSpans hf ⟨scope, .afterThen first cond body last⟩
      rw [step_of_boundary hboundary ht, step_of_boundary rfl ht]
      exact begin_mapSpans hf _ t span
  | expression first purpose r =>
    have hstep := r.step_mapSpans hf t span
    rcases hr : r.step t span with _ | r'
    · rw [hr] at hstep
      rw [step_expression_none hr]
      exact (step_expression_none hstep _ _ _).trans
        (leaveExpression_mapSpans hf scope first purpose r t span)
    · rw [hr] at hstep
      rw [step_expression_some hr]
      exact step_expression_some hstep _ _ _
  | _ =>
    cases t with
    | symbol s => cases s <;> rfl
    | _ => rfl

theorem accepts_mapSpans (p : Parser) (t : Terminal) :
    (p.mapSpans f).accepts t = p.accepts t := by
  have hmoved := (p.mapSpans f).isSome_step t.sample (f default)
  rw [p.step_mapSpans hf, Option.isSome_map, p.isSome_step, Terminal.terminal_sample] at hmoved
  exact hmoved.symm

omit hf in
theorem remains_mapSpans (p : Parser) (found : Option Terminal) (t : Terminal) :
    (p.mapSpans f).remains found t = p.remains found t := by
  obtain ⟨scope, stage⟩ := p
  cases stage with
  | expression first purpose r => exact r.remains_mapSpans f found t
  | _ => rfl

/-- The awaited terminals do not depend on places. -/
theorem expected_mapSpans (p : Parser) (found : Option Terminal) :
    (p.mapSpans f).expected found = p.expected found := by
  unfold expected
  simp only [p.accepts_mapSpans hf, remains_mapSpans]

theorem done?_mapSpans (p : Parser) :
    (p.mapSpans f).done? = p.done?.map (Stmt.mapAllSpans f) := by
  obtain ⟨⟨done, outer⟩, stage⟩ := p
  rcases outer with _ | ⟨block, outer⟩
  · cases stage with
    | ready => exact congrArg some (Stmt.mapAllSpans_reverse f done).symm
    | afterThen first cond body last =>
      have h := Stmt.mapAllSpans_reverse f (.branch cond body none (.cover first last) :: done)
      simp only [Stmt.mapAllSpans, Stmt.mapSpans, hf] at h
      exact congrArg some h.symm
    | _ => rfl
  · cases stage <;> rfl

end Parser

end Steps

end Scriptlet
