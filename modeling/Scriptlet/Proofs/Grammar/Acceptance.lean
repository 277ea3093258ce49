-- What the grammar derives, the parser reads. Each kind of phrase has a
-- statement on how the parser takes its tokens, for all brackets, waiting
-- operators and blocks around it, and the statements follow the derivation.
import Scriptlet.Proofs.Parsing

namespace Scriptlet.Grammar

/-! ## How operands are read -/

/-- The operand that some tokens spell. -/
def spelled (ts : Tokens) (e : Expr) : Operand := ⟨opening ts, closing ts, e⟩

/-- `Reaches fs p ts q x`: where an operand is awaited, `ts` are read up to the
operand `x`. -/
def Reaches (fs : List Frame) (p : Pending) (ts : Tokens) (q : Pending) (x : Operand) : Prop :=
  ∃ r, (ExprReader.operand fs p).steps ts = some r ∧ r.lastOperand? = some (fs, q, x)

def ReadsTerm (e : Expr) (ts : Tokens) : Prop :=
  ∀ fs p, Reaches fs p ts p (spelled ts e)

def ReadsExtremum (e : Expr) (ts : Tokens) : Prop :=
  ∀ fs p, p.extremum = none → ∃ q x, Reaches fs p ts q x ∧
    q.comparison = p.comparison ∧ q.sum = p.sum ∧ q.closeExtremum x = spelled ts e

def ReadsSum (e : Expr) (ts : Tokens) : Prop :=
  ∀ fs p, p.sum = none → p.extremum = none → ∃ q x, Reaches fs p ts q x ∧
    q.comparison = p.comparison ∧ q.closeSum x = spelled ts e

def ReadsExpression (e : Expr) (ts : Tokens) : Prop :=
  ∀ fs, ∃ q x, Reaches fs .empty ts q x ∧ q.closeAll x = spelled ts e

/-- A target is a name with an expression in brackets. -/
def ReadsTarget (name : String) (i : Expr) (ts : Tokens) : Prop :=
  ∃ us a b c, ts = (.ident name, a) :: (.symbol .openBracket, b) :: us ++
    [(.symbol .closeBracket, c)] ∧ ReadsExpression i us

/-- Items with commas after them are added to those of the innermost list. -/
def ReadsLeading (es : List Expr) (ts : Tokens) : Prop :=
  ∀ fs first outer, (ExprReader.operand (⟨.list [], first, outer⟩ :: fs) .empty).steps ts =
    some (.operand (⟨.list es.reverse, first, outer⟩ :: fs) .empty)

/-- Items and the bracket after them close the innermost list. -/
def ReadsItems (es : List Expr) (ts : Tokens) : Prop :=
  ∀ fs first outer c, (ExprReader.operand (⟨.list [], first, outer⟩ :: fs) .empty).steps
    (ts ++ [(.symbol .closeBracket, c)]) =
    some (.operator fs outer ⟨first, c, .list es (.cover first c)⟩)

/-! ## Operands -/

theorem readsExtremum_of_term {e : Expr} {ts : Tokens} (h : ReadsTerm e ts) :
    ReadsExtremum e ts := by
  intro fs p hp
  exact ⟨p, spelled ts e, h fs p, rfl, rfl, by simp [Pending.closeExtremum, Pending.close, hp]⟩

theorem readsSum_of_extremum {e : Expr} {ts : Tokens} (h : ReadsExtremum e ts) :
    ReadsSum e ts := by
  intro fs p hsum hext
  obtain ⟨q, x, hreach, hcomp, hsame, hclose⟩ := h fs p hext
  exact ⟨q, x, hreach, hcomp, by simp [Pending.closeSum, Pending.close, hsame, hsum, hclose]⟩

theorem readsExpression_of_sum {e : Expr} {ts : Tokens} (h : ReadsSum e ts) :
    ReadsExpression e ts := by
  intro fs
  obtain ⟨q, x, hreach, hcomp, hclose⟩ := h fs .empty rfl rfl
  exact ⟨q, x, hreach, by simp [Pending.closeAll, Pending.close, hcomp, hclose, Pending.empty]⟩

/-- After an operand an operator waits for the next one. -/
theorem Reaches.operator {fs : List Frame} {p q q' r : Pending} {ts us : Tokens} {x y : Operand}
    {f : Family} {s : Symbol} {op : BinOp} (hx : Reaches fs p ts q x) (hop : Operator f s op)
    (hpush : ExprReader.pushOperator fs q x op = some (.operand fs q'))
    (hy : Reaches fs q' us r y) (b : Span) : Reaches fs p (ts ++ (.symbol s, b) :: us) r y := by
  obtain ⟨m, hm, hlast⟩ := hx
  obtain ⟨n, hn, hy⟩ := hy
  refine ⟨n, ?_, hy⟩
  have hbin := (operator_iff.1 hop).1
  rw [ExprReader.steps_append, hm, Option.bind_some, ExprReader.steps_cons,
    ExprReader.step_of_lastOperand hlast (operator_ne_openBracket hop), ExprReader.afterOperand,
    hbin]
  simp only [hpush, Option.bind_some, hn]

theorem join_spelled {ts us : Tokens} (hts : ts ≠ []) (hus : us ≠ []) (f : Family) (op : BinOp)
    (l r : Expr) (t : Token × Span) :
    Operand.join f op (spelled ts l) (spelled us r) =
      spelled (ts ++ t :: us) (.binary f op l r (.cover (opening ts) (closing us))) := by
  simp [Operand.join, spelled, hts, hus]

theorem readsExtremum_binary {l r : Expr} {ts us : Tokens} {s : Symbol} {op : BinOp}
    (hop : Operator .extremum s op) (hl : ReadsExtremum l ts) (hr : ReadsTerm r us)
    (hts : ts ≠ []) (hus : us ≠ []) (b : Span) :
    ReadsExtremum (.binary .extremum op l r (.cover (opening ts) (closing us)))
      (ts ++ (.symbol s, b) :: us) := by
  intro fs p hp
  obtain ⟨q, x, hreach, hcomp, hsum, hclose⟩ := hl fs p hp
  have hpush : ExprReader.pushOperator fs q x op =
      some (.operand fs { q with extremum := some (spelled ts l, op) }) := by
    simp only [ExprReader.pushOperator, (operator_iff.1 hop).2, hclose]
  refine ⟨_, _, hreach.operator hop hpush (hr fs _) b, hcomp, hsum, ?_⟩
  exact join_spelled hts hus _ _ _ _ _

theorem readsSum_binary {l r : Expr} {ts us : Tokens} {s : Symbol} {op : BinOp}
    (hop : Operator .sum s op) (hl : ReadsSum l ts) (hr : ReadsExtremum r us)
    (hts : ts ≠ []) (hus : us ≠ []) (b : Span) :
    ReadsSum (.binary .sum op l r (.cover (opening ts) (closing us)))
      (ts ++ (.symbol s, b) :: us) := by
  intro fs p hpsum hpext
  obtain ⟨q, x, hreach, hcomp, hclose⟩ := hl fs p hpsum hpext
  have hpush : ExprReader.pushOperator fs q x op =
      some (.operand fs { q with sum := some (spelled ts l, op), extremum := none }) := by
    simp only [ExprReader.pushOperator, (operator_iff.1 hop).2, hclose]
  obtain ⟨q', y, hreach', hcomp', hsum', hclose'⟩ :=
    hr fs { q with sum := some (spelled ts l, op), extremum := none } rfl
  refine ⟨q', y, hreach.operator hop hpush hreach' b, hcomp'.trans hcomp, ?_⟩
  rw [Pending.closeSum, hclose', hsum']
  exact join_spelled hts hus _ _ _ _ _

theorem readsExpression_binary {l r : Expr} {ts us : Tokens} {s : Symbol} {op : BinOp}
    (hop : Operator .comparison s op) (hl : ReadsSum l ts) (hr : ReadsSum r us)
    (hts : ts ≠ []) (hus : us ≠ []) (b : Span) :
    ReadsExpression (.binary .comparison op l r (.cover (opening ts) (closing us)))
      (ts ++ (.symbol s, b) :: us) := by
  intro fs
  obtain ⟨q, x, hreach, hcomp, hclose⟩ := hl fs .empty rfl rfl
  have hpush : ExprReader.pushOperator fs q x op =
      some (.operand fs ⟨some (spelled ts l, op), none, none⟩) := by
    simp only [ExprReader.pushOperator, (operator_iff.1 hop).2, hcomp, Pending.empty, hclose]
  obtain ⟨q', y, hreach', hcomp', hclose'⟩ :=
    hr fs ⟨some (spelled ts l, op), none, none⟩ rfl rfl
  refine ⟨q', y, hreach.operator hop hpush hreach' b, ?_⟩
  rw [Pending.closeAll, hclose', hcomp']
  exact join_spelled hts hus _ _ _ _ _

/-! ## Brackets -/

/-- A symbol that is no operator ends the expression in the innermost bracket. -/
theorem ReadsExpression.steps_concat {e : Expr} {ts : Tokens} (h : ReadsExpression e ts)
    (fs : List Frame) {s : Symbol} (hop : s.binOp? = none) (hs : s ≠ .openBracket) (c : Span) :
    (ExprReader.operand fs .empty).steps (ts ++ [(.symbol s, c)]) =
      ExprReader.closeFrame fs (spelled ts e) s c := by
  obtain ⟨q, x, ⟨m, hm, hlast⟩, hclose⟩ := h fs
  rw [ExprReader.steps_append, hm, Option.bind_some, ExprReader.steps_cons,
    ExprReader.step_of_lastOperand hlast hs, ExprReader.afterOperand, hop, hclose]
  exact Option.bind_fun_some _

theorem spelled_bracketed (t u : Token × Span) (ts : Tokens) (e : Expr) :
    spelled (t :: ts ++ [u]) e = ⟨t.2, u.2, e⟩ := by
  simp [spelled]

theorem readsTerm_parens {e : Expr} {ts : Tokens} (h : ReadsExpression e ts) (a b : Span) :
    ReadsTerm e ((.symbol .openParen, a) :: ts ++ [(.symbol .closeParen, b)]) := by
  intro fs p
  refine ⟨.operator fs p ⟨a, b, e⟩, ?_, ?_⟩
  · exact h.steps_concat (⟨.group, a, p⟩ :: fs) rfl (by simp) b
  · rw [spelled_bracketed]
    rfl

theorem readsTerm_index {name : String} {i : Expr} {ts : Tokens} (h : ReadsTarget name i ts) :
    ReadsTerm (.index name i (extent ts)) ts := by
  obtain ⟨us, a, b, c, rfl, h⟩ := h
  intro fs p
  refine ⟨.operator fs p ⟨a, c, .index name i (.cover a c)⟩, ?_, ?_⟩
  · exact h.steps_concat (⟨.index name, a, p⟩ :: fs) rfl (by simp) c
  · simp [spelled, extent, ExprReader.lastOperand?]

theorem readsTerm_list {es : List Expr} {ts : Tokens} (h : ReadsItems es ts) (a b : Span) :
    ReadsTerm (.list es (.cover a b))
      ((.symbol .openBracket, a) :: ts ++ [(.symbol .closeBracket, b)]) := by
  intro fs p
  refine ⟨.operator fs p ⟨a, b, .list es (.cover a b)⟩, ?_, ?_⟩
  · exact h fs a p b
  · rw [spelled_bracketed]
    rfl

theorem readsLeading_next {es : List Expr} {e : Expr} {ts us : Tokens} (hes : ReadsLeading es ts)
    (he : ReadsExpression e us) (b : Span) :
    ReadsLeading (es ++ [e]) (ts ++ us ++ [(.symbol .comma, b)]) := by
  intro fs first outer
  rw [List.append_assoc, ExprReader.steps_append, hes, Option.bind_some,
    he.steps_concat _ rfl (by simp)]
  simp [ExprReader.closeFrame, spelled]

theorem readsItems_of_leading {es : List Expr} {ts : Tokens} (h : ReadsLeading es ts) :
    ReadsItems es ts := by
  intro fs first outer c
  rw [ExprReader.steps_append, h]
  simp [ExprReader.step, ExprReader.closeList, Pending.isEmpty, Pending.empty]

theorem readsItems_last {es : List Expr} {e : Expr} {ts us : Tokens} (hes : ReadsLeading es ts)
    (he : ReadsExpression e us) : ReadsItems (es ++ [e]) (ts ++ us) := by
  intro fs first outer c
  rw [List.append_assoc, ExprReader.steps_append, hes, Option.bind_some,
    he.steps_concat _ rfl (by simp)]
  simp [ExprReader.closeFrame, spelled]

/-! ## Statements -/

/-- Between two statements, a statement is added to the scope. -/
def ReadsStatement (s : Stmt) (ts : Tokens) : Prop :=
  ∀ (p : Parser) (scope : Scope), p.boundary? = some scope →
    ∃ q, p.steps ts = some q ∧ q.boundary? = some (scope.push s)

def ReadsStatements (ss : List Stmt) (ts : Tokens) : Prop :=
  ∀ (p : Parser) (scope : Scope), p.boundary? = some scope →
    ∃ q, p.steps ts = some q ∧ q.boundary? = some ⟨ss.reverse ++ scope.done, scope.outer⟩

/-- A block is statements in braces. -/
def ReadsBlock (ss : List Stmt) (ts : Tokens) : Prop :=
  ∃ us a b, ts = (.symbol .openBrace, a) :: us ++ [(.symbol .closeBrace, b)] ∧
    ReadsStatements ss us

/-- A range is two expressions with dots between them. -/
def ReadsRange (r : Range) (ts : Tokens) : Prop :=
  ∃ us vs b, ts = us ++ (.symbol .range, b) :: vs ∧ ReadsExpression r.lo us ∧
    ReadsExpression r.hi vs ∧ r.span = .cover (opening us) (closing vs)

/-- An expression of a statement and the symbol after it do what the expression
is read for. -/
theorem ReadsExpression.steps_reading {e : Expr} {ts : Tokens} (h : ReadsExpression e ts)
    (scope : Scope) (first : Span) (purpose : Purpose) {s : Symbol} (hop : s.binOp? = none)
    (hs : s ≠ .openBracket) (c : Span) :
    (Parser.reading scope first purpose).steps (ts ++ [(.symbol s, c)]) =
      Parser.endExpression scope first purpose (spelled ts e) s c := by
  obtain ⟨q, x, ⟨m, hm, hlast⟩, hclose⟩ := h []
  rw [Parser.reading, ExprReader.start, Parser.steps_append_of_some
    (Parser.steps_expression hm scope first purpose), Parser.steps_cons,
    Parser.step_of_lastOperand hlast hop hs, hclose]
  exact Option.bind_fun_some _

/-- From the brace that opens a block to the one that closes it. -/
theorem ReadsStatements.steps_block {ss : List Stmt} {ts : Tokens} (h : ReadsStatements ss ts)
    (scope : Scope) (owner : BlockOwner) (b : Span) :
    (⟨scope.enter owner, .ready⟩ : Parser).steps (ts ++ [(.symbol .closeBrace, b)]) =
      Parser.closeBlock ⟨ss.reverse, (owner, scope.done) :: scope.outer⟩ b := by
  obtain ⟨q, hq, hboundary⟩ := h ⟨scope.enter owner, .ready⟩ (scope.enter owner) rfl
  rw [Parser.steps_append, hq, Option.bind_some, Parser.steps_cons,
    Parser.step_of_boundary hboundary (by simp), Parser.begin]
  simp only [Scope.enter, List.append_nil]
  exact Option.bind_fun_some _

theorem readsStatement_assign {name : String} {e : Expr} {ts : Tokens}
    (h : ReadsExpression e ts) (a b c : Span) :
    ReadsStatement (.assign name e (.cover a c))
      ((.ident name, a) :: (.symbol .assign, b) :: ts ++ [(.symbol .semicolon, c)]) := by
  intro p scope hp
  refine ⟨Parser.finish scope (.assign name e (.cover a c)), ?_, rfl⟩
  rw [List.cons_append, List.cons_append, Parser.steps_cons,
    Parser.step_of_boundary hp (by simp)]
  exact h.steps_reading scope a (.assign name) rfl (by simp) c

theorem readsStatement_indexAssign {name : String} {i e : Expr} {ts us : Tokens}
    (hi : ReadsTarget name i ts) (he : ReadsExpression e us) (b d : Span) :
    ReadsStatement (.indexAssign name i e (.cover (opening ts) d))
      (ts ++ (.symbol .assign, b) :: us ++ [(.symbol .semicolon, d)]) := by
  obtain ⟨vs, a, o, c, rfl, hi⟩ := hi
  intro p scope hp
  refine ⟨Parser.finish scope (.indexAssign name i e (.cover a d)), ?_, rfl⟩
  have htarget : (Parser.reading scope a (.target name)).steps
      (vs ++ [(.symbol .closeBracket, c)]) = some ⟨scope, .indexed a name i⟩ := by
    rw [hi.steps_reading scope a _ rfl (by simp)]
    rfl
  rw [List.append_assoc, List.cons_append, List.cons_append, List.cons_append, List.cons_append,
    Parser.steps_cons, Parser.step_of_boundary hp (by simp), Parser.begin, Option.bind_some,
    Parser.steps_cons]
  simp only [Parser.step, Option.bind_some]
  rw [Parser.steps_append, htarget, Option.bind_some]
  exact he.steps_reading scope a (.indexAssign name i) rfl (by simp) d

/-- A statement that prints, which only its keyword and its node tell apart. -/
theorem readsStatement_print (s : Symbol) (purpose : Purpose) (node : Expr → Span → Stmt)
    {e : Expr} {ts : Tokens} (h : ReadsExpression e ts)
    (hbegin : ∀ scope a, Parser.begin scope (.symbol s) a =
      some (Parser.reading scope a purpose))
    (hend : ∀ scope a x b, Parser.endExpression scope a purpose x .semicolon b =
      some (Parser.finish scope (node x.expr (.cover a b))))
    (hs : s ≠ .otherwise) (a b : Span) :
    ReadsStatement (node e (.cover a b)) ((.symbol s, a) :: ts ++ [(.symbol .semicolon, b)]) := by
  intro p scope hp
  refine ⟨Parser.finish scope (node e (.cover a b)), ?_, rfl⟩
  rw [List.cons_append, Parser.steps_cons, Parser.step_of_boundary hp (by simpa using hs), hbegin,
    Option.bind_some, h.steps_reading scope a _ rfl (by simp), hend]
  rfl

theorem readsStatement_loop {var : String} {r : Range} {ss : List Stmt} {ts us : Tokens}
    (hr : ReadsRange r ts) (hss : ReadsBlock ss us) (a b c : Span) :
    ReadsStatement (.loop var r ss (.cover a (closing us)))
      ((.symbol .loop, a) :: (.ident var, b) :: (.symbol .within, c) :: ts ++ us) := by
  obtain ⟨lo, hi, d, rfl, hlo, hhi, hspan⟩ := hr
  obtain ⟨vs, o, e, rfl, hss⟩ := hss
  intro p scope hp
  refine ⟨Parser.finish scope (.loop var r ss (.cover a e)), ?_, by simp [Parser.boundary?,
    Parser.finish]⟩
  have hlo' : (Parser.reading scope a (.lo var)).steps (lo ++ [(.symbol .range, d)]) =
      some (Parser.reading scope a (.hi var (spelled lo r.lo))) := by
    rw [hlo.steps_reading scope a _ rfl (by simp)]
    rfl
  have hhi' : (Parser.reading scope a (.hi var (spelled lo r.lo))).steps
      (hi ++ [(.symbol .openBrace, o)]) = some ⟨scope.enter (.loop a var r), .ready⟩ := by
    rw [hhi.steps_reading scope a _ rfl (by simp)]
    simp only [Parser.endExpression, spelled, ← hspan]
  have hsplit : lo ++ (.symbol .range, d) :: hi ++
      ((.symbol .openBrace, o) :: vs ++ [(.symbol .closeBrace, e)]) =
      lo ++ [(.symbol .range, d)] ++ (hi ++ [(.symbol .openBrace, o)] ++
        (vs ++ [(.symbol .closeBrace, e)])) := by simp
  rw [List.cons_append, List.cons_append, List.cons_append, hsplit, Parser.steps_cons,
    Parser.step_of_boundary hp (by simp), Parser.begin, Option.bind_some, Parser.steps_cons]
  simp only [Parser.step, Option.bind_some, Parser.steps_cons]
  rw [Parser.steps_append_of_some hlo', Parser.steps_append_of_some hhi', hss.steps_block]
  simp only [Parser.closeBlock, List.reverse_reverse]

/-- A conditional up to the end of its first block. -/
theorem steps_branch {e : Expr} {ss : List Stmt} {ts us : Tokens} (he : ReadsExpression e ts)
    (hss : ReadsBlock ss us) {p : Parser} {scope : Scope} (hp : p.boundary? = some scope)
    (a : Span) : p.steps ((.symbol .cond, a) :: ts ++ us) =
      some ⟨scope, .afterThen a e ss (closing us)⟩ := by
  obtain ⟨vs, o, b, rfl, hss⟩ := hss
  have he' : (Parser.reading scope a .cond).steps (ts ++ [(.symbol .openBrace, o)]) =
      some ⟨scope.enter (.thenBranch a e), .ready⟩ := by
    rw [he.steps_reading scope a _ rfl (by simp)]
    rfl
  have hsplit : ts ++ ((.symbol .openBrace, o) :: vs ++ [(.symbol .closeBrace, b)]) =
      ts ++ [(.symbol .openBrace, o)] ++ (vs ++ [(.symbol .closeBrace, b)]) := by simp
  rw [List.cons_append, hsplit, Parser.steps_cons, Parser.step_of_boundary hp (by simp),
    Parser.begin, Option.bind_some, Parser.steps_append_of_some he', hss.steps_block]
  simp [Parser.closeBlock]

theorem readsStatement_branch {e : Expr} {ss : List Stmt} {ts us : Tokens}
    (he : ReadsExpression e ts) (hss : ReadsBlock ss us) (a : Span) :
    ReadsStatement (.branch e ss none (.cover a (closing us)))
      ((.symbol .cond, a) :: ts ++ us) := by
  intro p scope hp
  exact ⟨_, steps_branch he hss hp a, rfl⟩

theorem readsStatement_branchElse {e : Expr} {ss rs : List Stmt} {ts us vs : Tokens}
    (he : ReadsExpression e ts) (hss : ReadsBlock ss us) (hrs : ReadsBlock rs vs) (a b : Span) :
    ReadsStatement (.branch e ss (some rs) (.cover a (closing vs)))
      ((.symbol .cond, a) :: ts ++ us ++ (.symbol .otherwise, b) :: vs) := by
  obtain ⟨ws, o, c, rfl, hrs⟩ := hrs
  intro p scope hp
  refine ⟨Parser.finish scope (.branch e ss (some rs) (.cover a c)), ?_, by simp [Parser.boundary?,
    Parser.finish]⟩
  rw [Parser.steps_append_of_some (steps_branch he hss hp a), List.cons_append]
  simp only [Parser.steps_cons, Parser.step, Option.bind_some]
  rw [hrs.steps_block]
  simp [Parser.closeBlock]

theorem readsStatements_next {ss : List Stmt} {s : Stmt} {ts us : Tokens}
    (hss : ReadsStatements ss ts) (hs : ReadsStatement s us) :
    ReadsStatements (ss ++ [s]) (ts ++ us) := by
  intro p scope hp
  obtain ⟨q, hq, hboundary⟩ := hss p scope hp
  obtain ⟨r, hr, hlast⟩ := hs q _ hboundary
  refine ⟨r, ?_, ?_⟩
  · rw [Parser.steps_append_of_some hq, hr]
  · simpa [Scope.push] using hlast

/-! ## All phrases -/

/-- How the parser reads a phrase. -/
def Reads : Phrase → Tokens → Prop
  | .program p, ts => ReadsStatements p.stmts ts
  | .statements ss, ts => ReadsStatements ss ts
  | .block ss, ts => ReadsBlock ss ts
  | .statement s, ts => ReadsStatement s ts
  | .range r, ts => ReadsRange r ts
  | .target name i, ts => ReadsTarget name i ts
  | .expression e, ts => ReadsExpression e ts
  | .sum e, ts => ReadsSum e ts
  | .extremum e, ts => ReadsExtremum e ts
  | .term e, ts => ReadsTerm e ts
  | .leading es, ts => ReadsLeading es ts
  | .items es, ts => ReadsItems es ts

theorem Derives.reads {ph : Phrase} {ts : Tokens} (h : Derives ph ts) : Reads ph ts := by
  induction h with
  | program _ ih => exact ih
  | noStatement => exact fun p scope hp => ⟨p, rfl, hp⟩
  | nextStatement _ _ ihss ihs => exact readsStatements_next ihss ihs
  | block _ ih => exact ⟨_, _, _, rfl, ih⟩
  | assign _ ih => exact readsStatement_assign ih _ _ _
  | indexAssign _ _ ihi ihe => exact readsStatement_indexAssign ihi ihe _ _
  | print _ ih =>
    exact readsStatement_print .print .print .print ih (fun _ _ => rfl) (fun _ _ _ _ => rfl)
      (by simp) _ _
  | printLine _ ih =>
    exact readsStatement_print .println .printLine .printLine ih (fun _ _ => rfl)
      (fun _ _ _ _ => rfl) (by simp) _ _
  | loop _ _ ihr ihss => exact readsStatement_loop ihr ihss _ _ _
  | branch _ _ ihe ihss => exact readsStatement_branch ihe ihss _
  | branchElse _ _ _ ihe ihss ihrs => exact readsStatement_branchElse ihe ihss ihrs _ _
  | range _ _ ihlo ihhi => exact ⟨_, _, _, rfl, ihlo, ihhi, rfl⟩
  | target _ ih => exact ⟨_, _, _, _, rfl, ih⟩
  | comparison hop hl hr ihl ihr =>
    exact readsExpression_binary hop ihl ihr (hl.ne_nil trivial) (hr.ne_nil trivial) _
  | ofSum _ ih => exact readsExpression_of_sum ih
  | sum hop hl hr ihl ihr =>
    exact readsSum_binary hop ihl ihr (hl.ne_nil trivial) (hr.ne_nil trivial) _
  | ofExtremum _ ih => exact readsSum_of_extremum ih
  | extremum hop hl hr ihl ihr =>
    exact readsExtremum_binary hop ihl ihr (hl.ne_nil trivial) (hr.ne_nil trivial) _
  | ofTerm _ ih => exact readsExtremum_of_term ih
  | number | str | ident => exact fun fs p => ⟨_, rfl, rfl⟩
  | index _ ih => exact readsTerm_index ih
  | list _ ih => exact readsTerm_list ih _ _
  | parens _ ih => exact readsTerm_parens ih _ _
  | noLeading => exact fun _ _ _ => rfl
  | nextLeading _ _ ihes ihe => exact readsLeading_next ihes ihe _
  | items _ ih => exact readsItems_of_leading ih
  | itemsLast _ _ ihes ihe => exact readsItems_last ihes ihe

end Scriptlet.Grammar
