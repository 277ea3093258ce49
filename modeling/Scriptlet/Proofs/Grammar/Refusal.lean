-- Where the parser refuses, no program goes on. The tokens before the place
-- start a program, with the refused one they do not, and the terminals that are
-- awaited there can all follow.
import Mathlib
import Scriptlet.Proofs.Grammar.Completion
import Scriptlet.Proofs.Grammar.Recognition

namespace Scriptlet

open Grammar (Tokens Sentence Viable)

/-! ## Which tokens can stand next -/

namespace ExprReader

theorem isSome_closeFrame (fs : List Frame) (x y : Operand) (s : Symbol) (a b : Span) :
    (closeFrame fs x s a).isSome = (closeFrame fs y s b).isSome := by
  rcases fs with _ | ⟨⟨opener, first, outer⟩, fs⟩
  · rfl
  · cases opener <;> cases s <;> rfl

theorem isSome_pushOperator (fs : List Frame) (p : Pending) (x y : Operand) (op : BinOp) :
    (pushOperator fs p x op).isSome = (pushOperator fs p y op).isSome := by
  unfold pushOperator
  cases op.family
  · rfl
  · rfl
  · cases p.comparison <;> rfl

theorem isSome_afterOperand (fs : List Frame) (p : Pending) (x y : Operand) (s : Symbol)
    (a b : Span) : (afterOperand fs p x s a).isSome = (afterOperand fs p y s b).isSome := by
  unfold afterOperand
  cases s.binOp? with
  | none => exact isSome_closeFrame ..
  | some op => exact isSome_pushOperator ..

theorem isSome_closeList (fs : List Frame) (p : Pending) (a b : Span) :
    (closeList fs p a).isSome = (closeList fs p b).isSome := by
  rcases fs with _ | ⟨⟨opener, first, outer⟩, fs⟩
  · rfl
  · cases opener <;> simp only [closeList]
    split <;> rfl

/-- Whether a token can stand next does not depend on what it carries or on
where it stands. -/
theorem isSome_step_congr (r : ExprReader) {t u : Token} (h : t.terminal = u.terminal)
    (a b : Span) : (r.step t a).isSome = (r.step u b).isSome := by
  cases t <;> cases u <;> simp only [Token.terminal, Terminal.symbol.injEq, reduceCtorEq] at h
  · next s s' =>
    subst h
    cases r with
    | operand fs p =>
      cases s with
      | closeBracket => exact isSome_closeList fs p a b
      | _ => rfl
    | identifier fs p name first =>
      by_cases hs : s = .openBracket
      · subst hs
        rfl
      · rw [step_of_lastOperand rfl hs, step_of_lastOperand rfl hs]
        exact isSome_afterOperand ..
    | operator => exact isSome_afterOperand ..
  all_goals cases r <;> rfl

end ExprReader

theorem terminal_eq_symbol_iff {t : Token} {s : Symbol} :
    t.terminal = .symbol s ↔ t = .symbol s := by
  cases t <;> simp [Token.terminal]

namespace Parser

theorem isSome_begin_congr (scope : Scope) {t u : Token} (h : t.terminal = u.terminal)
    (a b : Span) : (begin scope t a).isSome = (begin scope u b).isSome := by
  cases t <;> cases u <;> simp only [Token.terminal, Terminal.symbol.injEq, reduceCtorEq] at h
  · next s s' =>
    subst h
    cases s with
    | closeBrace =>
      obtain ⟨done, outer⟩ := scope
      rcases outer with _ | ⟨⟨owner, before⟩, outer⟩
      · rfl
      · cases owner <;> rfl
    | _ => rfl
  all_goals rfl

theorem isSome_endExpression (scope : Scope) (first : Span) (purpose : Purpose) (x : Operand)
    (s : Symbol) (a b : Span) : (endExpression scope first purpose x s a).isSome =
      (endExpression scope first purpose x s b).isSome := by
  cases purpose <;> cases s <;> rfl

theorem isSome_leaveExpression (scope : Scope) (first : Span) (purpose : Purpose)
    (r : ExprReader) {t u : Token} (h : t.terminal = u.terminal) (a b : Span) :
    (leaveExpression scope first purpose r t a).isSome =
      (leaveExpression scope first purpose r u b).isSome := by
  unfold leaveExpression
  cases t <;> cases u <;> simp only [Token.terminal, Terminal.symbol.injEq, reduceCtorEq] at h
  · next s s' =>
    subst h
    cases r.complete? with
    | none => rfl
    | some x => exact isSome_endExpression ..
  all_goals rfl

theorem isSome_step_congr (p : Parser) {t u : Token} (h : t.terminal = u.terminal) (a b : Span) :
    (p.step t a).isSome = (p.step u b).isSome := by
  obtain ⟨scope, stage⟩ := p
  cases stage with
  | ready => exact isSome_begin_congr scope h a b
  | afterThen first cond body last =>
    by_cases ht : t = .symbol .otherwise
    · have hu : u = .symbol .otherwise := by
        rw [← terminal_eq_symbol_iff, ← h, ht]
        rfl
      rw [ht, hu]
      rfl
    · have hu : u ≠ .symbol .otherwise := by
        rw [ne_eq, ← terminal_eq_symbol_iff, ← h, terminal_eq_symbol_iff]
        exact ht
      rw [step_of_boundary rfl ht, step_of_boundary rfl hu]
      exact isSome_begin_congr _ h a b
  | expression first purpose r =>
    have hr := r.isSome_step_congr h a b
    rcases ht : r.step t a with _ | r'
    · rw [ht, Option.isSome_none, eq_comm, Option.isSome_eq_false_iff, Option.isNone_iff_eq_none]
        at hr
      rw [step_expression_none ht, step_expression_none hr]
      exact isSome_leaveExpression scope first purpose r h a b
    · rw [ht, Option.isSome_some, eq_comm, Option.isSome_iff_exists] at hr
      obtain ⟨r'', hu⟩ := hr
      rw [step_expression_some ht, step_expression_some hu]
      rfl
  | _ =>
    cases t <;> cases u <;> simp only [Token.terminal, Terminal.symbol.injEq, reduceCtorEq] at h
    · next s s' =>
      subst h
      cases s <;> rfl
    all_goals rfl

theorem isSome_step (p : Parser) (t : Token) (span : Span) :
    (p.step t span).isSome = p.accepts t.terminal :=
  p.isSome_step_congr (Terminal.terminal_sample _).symm span default

/-! ## The expected terminals -/

theorem mem_expected_iff {p : Parser} {found : Option Terminal} {t : Terminal} :
    t ∈ p.expected found ↔ p.accepts t = true ∧ p.remains found t = true := by
  simp [expected, Terminal.mem_all]

theorem accepts_of_lastOperand {r : ExprReader} {fs : List Frame} {pending : Pending}
    {x : Operand} (h : r.lastOperand? = some (fs, pending, x)) (scope : Scope) (first : Span)
    (purpose : Purpose) : ∃ s, ExprReader.endsExpression s = true ∧
      (⟨scope, .expression first purpose r⟩ : Parser).accepts (.symbol s) = true := by
  rcases fs with _ | ⟨frame, fs⟩
  · refine ⟨purpose.closer, by cases purpose <;> rfl, ?_⟩
    have hstep := step_of_lastOperand h purpose.binOp?_closer purpose.closer_ne_openBracket
      scope first purpose default
    unfold accepts
    rw [Terminal.sample, hstep]
    cases purpose <;> rfl
  · refine ⟨frame.opener.closer, ?_, ?_⟩
    · rcases frame.opener.closer_cases with hs | hs <;> rw [hs] <;> rfl
    · obtain ⟨y, hy⟩ := ExprReader.step_closer h default
      unfold accepts
      rw [Terminal.sample, step_expression_some hy]
      rfl

theorem remains_of_endsExpression {r : ExprReader} {s : Symbol}
    (hs : ExprReader.endsExpression s = true) (found : Option Terminal) :
    r.remains found (.symbol s) = true := by
  unfold ExprReader.remains
  split
  · rfl
  · split
    · exact hs
    · simp [hs]
  · rfl

theorem expected_ne_nil (p : Parser) (found : Option Terminal) : p.expected found ≠ [] := by
  suffices h : ∃ t, p.accepts t = true ∧ p.remains found t = true by
    obtain ⟨t, ht⟩ := h
    exact List.ne_nil_of_mem (mem_expected_iff.2 ht)
  obtain ⟨scope, stage⟩ := p
  cases stage with
  | ready => exact ⟨.ident, rfl, rfl⟩
  | afterThen =>
    refine ⟨.ident, rfl, ?_⟩
    simp only [remains]
    split <;> rfl
  | afterElse => exact ⟨.symbol .openBrace, rfl, rfl⟩
  | named => exact ⟨.symbol .assign, rfl, rfl⟩
  | indexed => exact ⟨.symbol .assign, rfl, rfl⟩
  | afterFor => exact ⟨.ident, rfl, rfl⟩
  | afterVar => exact ⟨.symbol .within, rfl, rfl⟩
  | expression first purpose r =>
    cases r with
    | operand => exact ⟨.int, rfl, rfl⟩
    | identifier fs pending name span =>
      obtain ⟨s, hs, haccepts⟩ := accepts_of_lastOperand
        (r := .identifier fs pending name span) rfl scope first purpose
      exact ⟨.symbol s, haccepts, remains_of_endsExpression hs found⟩
    | operator fs pending x =>
      obtain ⟨s, hs, haccepts⟩ := accepts_of_lastOperand
        (r := .operator fs pending x) rfl scope first purpose
      exact ⟨.symbol s, haccepts, remains_of_endsExpression hs found⟩

end Parser

/-! ## Viable tokens -/

namespace Grammar

/-- Tokens start a program just when the parser can take them all. -/
theorem viable_iff_steps {ts : Tokens} : Viable ts ↔ ∃ q, Parser.start.steps ts = some q := by
  constructor
  · rintro ⟨rest, p, h⟩
    obtain ⟨q, hq, -⟩ := h.steps_start
    rw [Parser.steps_append] at hq
    obtain ⟨m, hm, -⟩ := Option.bind_eq_some_iff.1 hq
    exact ⟨m, hm⟩
  · rintro ⟨q, hq⟩
    obtain ⟨rest, r, ss, hr, hdone⟩ := q.completes
    exact ⟨rest, ⟨ss⟩, derives_iff_steps.2 ⟨r, Parser.steps_append_of_some hq rest ▸ hr, hdone⟩⟩

theorem viable_snoc_iff {ts : Tokens} {q : Parser} (hq : Parser.start.steps ts = some q)
    (t : Token) (span : Span) : Viable (ts ++ [(t, span)]) ↔ q.accepts t.terminal = true := by
  rw [viable_iff_steps, Parser.steps_append_of_some hq, ← q.isSome_step t span,
    Option.isSome_iff_exists]
  simp

theorem not_sentence_of_done {ts : Tokens} {q : Parser} (hq : Parser.start.steps ts = some q)
    (hdone : q.done? = none) : ¬ Sentence ts := by
  rintro ⟨p, h⟩
  obtain ⟨r, hr, hsome⟩ := h.steps_start
  cases hq.symm.trans hr
  simp [hdone] at hsome

end Grammar

/-! ## Refusals -/

/-- A list of tokens is refused at the first place that no program can pass, and
the expected terminals are some of those that a program can pass it with. -/
theorem parse_refuses_first (source : String) (tokens : Tokens) (e : SyntaxError)
    (h : parse source tokens = .error e) :
    let lines := LineIndex.ofText source
    let located := lines.locate tokens
    (match e.found with
      | some t => located[e.index]? = some (t, e.span) ∧ Viable (located.take e.index) ∧
          ¬ Viable (located.take (e.index + 1)) ∧ t.terminal ∉ e.expected
      | none => e.index = tokens.length ∧ Viable located ∧ ¬ Sentence located ∧
          e.span = lines.span (Grammar.closing tokens).stop ((Grammar.closing tokens).stop + 1)) ∧
    e.expected ≠ [] ∧
    ∀ u span, Token.terminal u ∈ e.expected → Viable (located.take e.index ++ [(u, span)]) := by
  intro lines located
  cases Parser.refused_of_run h with
  | @token us t span vs q heq hus hnone =>
    have hlocated : located = us ++ (t, span) :: vs := heq
    have htake : located.take (0 + us.length) = us := by simp [hlocated]
    have htake' : located.take (0 + us.length + 1) = us ++ [(t, span)] := by
      rw [hlocated, Nat.zero_add, List.append_cons,
        List.take_left' (by simp)]
    have hrefused : q.accepts t.terminal = false := by
      rw [← q.isSome_step t span, hnone]
      rfl
    refine ⟨⟨?_, ?_, ?_, ?_⟩, q.expected_ne_nil _, fun u s hu => ?_⟩
    · simp [hlocated]
    · rw [htake]
      exact Grammar.viable_iff_steps.2 ⟨q, hus⟩
    · rw [htake', Grammar.viable_snoc_iff hus, hrefused]
      simp
    · rw [Parser.mem_expected_iff, hrefused]
      simp
    · rw [htake, Grammar.viable_snoc_iff hus]
      exact (Parser.mem_expected_iff.1 hu).1
  | @finish q last hq hdone hlast =>
    have hlength : 0 + located.length = tokens.length := by simp [located, LineIndex.locate]
    have hstop : last = (Grammar.closing tokens).stop := by
      rw [hlast, Grammar.closing, LineIndex.locate, List.getLast?_map]
      cases tokens.getLast? <;> rfl
    refine ⟨⟨hlength, ?_, ?_, ?_⟩, q.expected_ne_nil _, fun u s hu => ?_⟩
    · exact Grammar.viable_iff_steps.2 ⟨q, hq⟩
    · exact Grammar.not_sentence_of_done hq hdone
    · rw [hstop]
    · rw [Nat.zero_add, List.take_length, Grammar.viable_snoc_iff hq]
      exact (Parser.mem_expected_iff.1 hu).1

/-- A name after a name is refused, and `=` could have stood there. -/
theorem parse_refuses_second_name :
    let a : Token × Span := (.ident "a", ⟨0, 1, 1⟩)
    let b : Token × Span := (.ident "b", ⟨2, 3, 1⟩)
    parse "a b" [a, b] =
      .error ⟨1, some b.1, b.2, [.symbol .assign, .symbol .openBracket]⟩ ∧
    Viable [a] ∧ ¬ Viable [a, b] ∧ Viable [a, (.symbol .assign, b.2)] := by
  intro a b
  have h : parse "a b" [a, b] =
    .error ⟨1, some b.1, b.2, [.symbol .assign, .symbol .openBracket]⟩ := by cbv
  have hlocated : (LineIndex.ofText "a b").locate [a, b] = [a, b] := by cbv
  obtain ⟨⟨-, hviable, hstuck, -⟩, -, hexpected⟩ := parse_refuses_first "a b" [a, b] _ h
  rw [hlocated] at hviable hstuck hexpected
  exact ⟨h, hviable, hstuck, hexpected (.symbol .assign) b.2 (by simp [Token.terminal])⟩

end Scriptlet
