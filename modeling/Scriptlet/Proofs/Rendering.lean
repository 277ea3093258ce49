-- Trees written out. Every well-formed tree has a text that compiles to it, with
-- parentheses where an operand binds more loosely than its place allows. So the
-- trees of sources are the well-formed ones.
import Scriptlet.Proofs.Nodes.WellFormed

namespace Scriptlet

open Grammar

/-! ## How loosely an expression binds -/

/-- The phrases of an expression, from the tightest to the loosest. -/
def Grammar.Phrase.atLevel : Nat → Expr → Phrase
  | 0, e => term e
  | 1, e => extremum e
  | 2, e => sum e
  | _, e => expression e

/-- The level of the nodes of a family. -/
def Family.level : Family → Nat
  | extremum => 1
  | sum => 2
  | comparison => 3

/-- The symbol that writes an operator. -/
def BinOp.mark : BinOp → Symbol
  | add => .plus
  | sub => .minus
  | max => .max
  | min => .min
  | gt => .greater
  | lt => .less
  | eq => .equal
  | ne => .notEqual

theorem Grammar.operator_mark (op : BinOp) : Operator op.family op.mark op := by
  cases op <;> constructor

namespace Grammar.Derives

theorem succ_level {level : Nat} {e : Expr} {ts : Tokens} (h : Derives (.atLevel level e) ts) :
    Derives (.atLevel (level + 1) e) ts := by
  match level with
  | 0 => exact .ofTerm h
  | 1 => exact .ofExtremum h
  | 2 => exact .ofSum h
  | _ + 3 => exact h

theorem loosen {level level' : Nat} (hle : level ≤ level') {e : Expr} {ts : Tokens}
    (h : Derives (.atLevel level e) ts) : Derives (.atLevel level' e) ts := by
  induction hle with
  | refl => exact h
  | step _ ih => exact ih.succ_level

theorem expression_of_level {level : Nat} {e : Expr} {ts : Tokens}
    (h : Derives (.atLevel level e) ts) : Derives (.expression e) ts :=
  h.loosen (Nat.le_add_right level 3)

/-- The left operand of an operator may have the same level, but for comparisons. -/
theorem binary {f : Family} {op : BinOp} {s : Symbol} {l r : Expr} {ts us : Tokens} {b : Span}
    (hop : Operator f s op) (hl : Derives (.atLevel (min f.level 2) l) ts)
    (hr : Derives (.atLevel (f.level - 1) r) us) :
    Derives (.atLevel f.level (.binary f op l r (.cover (opening ts) (closing us))))
      (ts ++ (.symbol s, b) :: us) := by
  cases f with
  | extremum => exact .extremum hop hl hr
  | sum => exact .sum hop hl hr
  | comparison => exact .comparison hop hl hr

theorem cons_leading {e : Expr} {es : List Expr} {ts us : Tokens} {b : Span}
    (he : Derives (.expression e) ts) (hes : Derives (.leading es) us) :
    Derives (.leading (e :: es)) (ts ++ (.symbol .comma, b) :: us) := by
  generalize hph : Phrase.leading es = ph at hes
  induction hes generalizing es with
  | noLeading =>
    cases hph
    simpa using Derives.nextLeading (b := b) .noLeading he
  | nextLeading _ hf ih _ =>
    cases hph
    simpa using Derives.nextLeading (ih rfl) hf
  | _ => cases hph

theorem cons_statements {s : Stmt} {ss : List Stmt} {ts us : Tokens}
    (hs : Derives (.statement s) ts) (hss : Derives (.statements ss) us) :
    Derives (.statements (s :: ss)) (ts ++ us) :=
  (Derives.nextStatement .noStatement hs).append_statements hss

end Grammar.Derives

/-! ## The tokens of a tree -/

mutual

/-- The tokens of an expression that stands where a phrase of the level can. -/
def Expr.tokens (level : Nat) : Expr → List Token
  | .number n _ => [.int n]
  | .str raw _ => [.str raw]
  | .ident name _ => [.ident name]
  | .list items _ =>
    .symbol .openBracket :: Expr.itemTokens items ++ [.symbol .closeBracket]
  | .index name position _ =>
    .ident name :: .symbol .openBracket :: position.tokens 3 ++ [.symbol .closeBracket]
  | .binary family op lhs rhs _ =>
    let whole := lhs.tokens (min family.level 2) ++ .symbol op.mark :: rhs.tokens (family.level - 1)
    if family.level ≤ level then whole
    else .symbol .openParen :: whole ++ [.symbol .closeParen]

/-- Every item has a comma after it, the last one too. -/
def Expr.itemTokens : List Expr → List Token
  | [] => []
  | e :: es => e.tokens 3 ++ .symbol .comma :: Expr.itemTokens es

end

def Range.tokens (r : Range) : List Token :=
  r.lo.tokens 3 ++ .symbol .range :: r.hi.tokens 3

/-- Some tokens in braces. -/
def Token.block (ts : List Token) : List Token :=
  .symbol .openBrace :: ts ++ [.symbol .closeBrace]

mutual

def Stmt.tokens : Stmt → List Token
  | .assign name e _ => .ident name :: .symbol .assign :: e.tokens 3 ++ [.symbol .semicolon]
  | .indexAssign name position e _ =>
    (.ident name :: .symbol .openBracket :: position.tokens 3 ++ [.symbol .closeBracket]) ++
      .symbol .assign :: e.tokens 3 ++ [.symbol .semicolon]
  | .print e _ => .symbol .print :: e.tokens 3 ++ [.symbol .semicolon]
  | .printLine e _ => .symbol .println :: e.tokens 3 ++ [.symbol .semicolon]
  | .loop var range body _ =>
    .symbol .loop :: .ident var :: .symbol .within :: range.tokens ++
      Token.block (Stmt.allTokens body)
  | .branch cond thenBody none _ =>
    .symbol .cond :: cond.tokens 3 ++ Token.block (Stmt.allTokens thenBody)
  | .branch cond thenBody (some elseBody) _ =>
    .symbol .cond :: cond.tokens 3 ++ Token.block (Stmt.allTokens thenBody) ++
      .symbol .otherwise :: Token.block (Stmt.allTokens elseBody)

def Stmt.allTokens : List Stmt → List Token
  | [] => []
  | s :: ss => s.tokens ++ Stmt.allTokens ss

end

/-- A text for a program, all of its tokens on one line. -/
def Program.render (p : Program) : String := Token.joined (Stmt.allTokens p.stmts)

/-! ## The tokens spell the tree -/

/-- Tokens that some text has and of which `P` holds, wherever each of them stands. -/
structure Writes (ws : List Token) (P : Tokens → Prop) : Prop where
  written : ∀ t ∈ ws, t.Written
  holds : ∀ us : Tokens, us.map Prod.fst = ws → P us

namespace Writes

variable {t : Token} {ws vs : List Token} {P Q : Tokens → Prop}

theorem nil : Writes [] (· = []) :=
  ⟨by simp, fun _ hus => List.map_eq_nil_iff.1 hus⟩

theorem append (hws : Writes ws P) (hvs : Writes vs Q) : Writes (ws ++ vs) (Followed P Q) := by
  refine ⟨List.forall_mem_append.2 ⟨hws.written, hvs.written⟩, ?_⟩
  intro us hus
  obtain ⟨us, us', rfl, hleft, hright⟩ := List.map_eq_append_iff.1 hus
  exact ⟨us, us', hws.holds us hleft, hvs.holds us' hright, rfl⟩

theorem single (ht : t.Written) : Writes [t] t.Alone := by
  refine ⟨List.forall_mem_singleton.2 ht, ?_⟩
  intro us hus
  obtain ⟨⟨_, a⟩, rfl, rfl⟩ := List.map_eq_singleton_iff.1 hus
  exact ⟨a, rfl⟩

theorem cons (hws : Writes ws P) (ht : t.Written) : Writes (t :: ws) (Followed t.Alone P) :=
  (single ht).append hws

theorem cons_symbol (hws : Writes ws P) (s : Symbol) :
    Writes (.symbol s :: ws) (Followed (Token.symbol s).Alone P) :=
  hws.cons trivial

theorem cons_name (hws : Writes ws P) {name : String} (hname : IsName name) :
    Writes (.ident name :: ws) (Followed (Token.ident name).Alone P) :=
  hws.cons hname

theorem concat_symbol (hws : Writes ws P) (s : Symbol) :
    Writes (ws ++ [.symbol s]) (Followed P (Token.symbol s).Alone) :=
  hws.append (single trivial)

theorem mono (h : Writes ws P) (hPQ : ∀ us, P us → Q us) : Writes ws Q :=
  ⟨h.written, fun us hus => hPQ us (h.holds us hus)⟩

end Writes

/-- Tokens that spell the expression at a level, but for the places. -/
def Expr.SpelledAt (level : Nat) (e : Expr) (us : Tokens) : Prop :=
  ∃ e', Derives (.atLevel level e') us ∧ e'.eraseSpans = e.eraseSpans

/-- What spells an expression at a level spells it where looser ones can stand too. -/
theorem Writes.loosen {e : Expr} {ws : List Token} {low level : Nat}
    (h : Writes ws (e.SpelledAt low)) (hle : low ≤ level) : Writes ws (e.SpelledAt level) := by
  refine h.mono ?_
  rintro us ⟨e', he', herase⟩
  exact ⟨e', he'.loosen hle, herase⟩

/-- A term of one token spells its expression at every level. -/
theorem Writes.oneToken {t : Token} {e : Expr} (ht : t.Written)
    (hterm : ∀ a, ∃ e', Derives (.term e') [(t, a)] ∧ e'.eraseSpans = e.eraseSpans)
    (level : Nat) : Writes [t] (e.SpelledAt level) := by
  refine Writes.loosen ?_ (Nat.zero_le level)
  refine (Writes.single ht).mono ?_
  rintro _ ⟨a, rfl⟩
  exact hterm a

/-- Tokens that spell a position of a list by name, but for the places. -/
def Expr.TargetSpelledBy (name : String) (position : Expr) (us : Tokens) : Prop :=
  ∃ e', Derives (.target name e') us ∧ e'.eraseSpans = position.eraseSpans

theorem Writes.target {name : String} (hname : IsName name) {position : Expr} {ws : List Token}
    (h : Writes ws (position.SpelledAt 3)) :
    Writes (.ident name :: .symbol .openBracket :: ws ++ [.symbol .closeBracket])
      (Expr.TargetSpelledBy name position) := by
  refine (((h.cons_symbol .openBracket).cons_name hname).concat_symbol .closeBracket).mono ?_
  rintro _ ⟨_, _, ⟨_, _, ⟨a, rfl⟩, ⟨_, us, ⟨b, rfl⟩, ⟨e', he', herase⟩, rfl⟩, rfl⟩, ⟨c, rfl⟩, rfl⟩
  exact ⟨e', .target he', herase⟩

/-- Tokens that spell the items of a list, but for the places. -/
def Expr.ItemsSpelledBy (es : List Expr) (us : Tokens) : Prop :=
  ∃ es', Derives (.leading es') us ∧
    Expr.mapAllSpans (fun _ => default) es' = Expr.mapAllSpans (fun _ => default) es

mutual

theorem Expr.writes_tokens : (e : Expr) → (∀ n ∈ e.nodes, n.WellFormed) → (level : Nat) →
    Writes (e.tokens level) (e.SpelledAt level)
  | .number n s, h, level => by
    have hn : (Token.int n).Written := h _ (.head _)
    exact .oneToken hn (fun _ => ⟨_, .number, rfl⟩) level
  | .str raw s, h, level => by
    have hraw : (Token.str raw).Written := h _ (.head _)
    exact .oneToken hraw (fun _ => ⟨_, .str, rfl⟩) level
  | .ident name s, h, level => by
    have hname : (Token.ident name).Written := h _ (.head _)
    exact .oneToken hname (fun _ => ⟨_, .ident, rfl⟩) level
  | .list items s, h, level => by
    obtain ⟨-, hitems⟩ := List.forall_mem_cons.1 h
    have ih := Expr.writes_itemTokens items hitems
    refine Writes.loosen ?_ (Nat.zero_le level)
    refine ((ih.cons_symbol .openBracket).concat_symbol .closeBracket).mono ?_
    rintro _ ⟨_, _, ⟨_, us, ⟨a, rfl⟩, ⟨es', hes', herase⟩, rfl⟩, ⟨b, rfl⟩, rfl⟩
    exact ⟨_, .list (.items hes'), congrArg (Expr.list · default) herase⟩
  | .index name position s, h, level => by
    obtain ⟨hname, hposition⟩ := List.forall_mem_cons.1 h
    refine Writes.loosen ?_ (Nat.zero_le level)
    refine ((Expr.writes_tokens position hposition 3).target hname).mono ?_
    rintro us ⟨i', hi', herase⟩
    exact ⟨_, .index hi', congrArg (Expr.index name · default) herase⟩
  | .binary family op lhs rhs s, h, level => by
    obtain ⟨hop, hoperands⟩ := List.forall_mem_cons.1 h
    obtain ⟨hlhs, hrhs⟩ := List.forall_mem_append.1 hoperands
    have hop : op.family = family := hop
    have hmark := operator_mark op
    rw [hop] at hmark
    have ihl := Expr.writes_tokens lhs hlhs (min family.level 2)
    have ihr := Expr.writes_tokens rhs hrhs (family.level - 1)
    have hwhole : Writes (lhs.tokens (min family.level 2) ++
        .symbol op.mark :: rhs.tokens (family.level - 1))
        ((Expr.binary family op lhs rhs s).SpelledAt family.level) := by
      refine (ihl.append (ihr.cons_symbol op.mark)).mono ?_
      rintro _ ⟨us, _, ⟨l', hl', hlerase⟩, ⟨_, vs, ⟨b, rfl⟩, ⟨r', hr', hrerase⟩, rfl⟩, rfl⟩
      have hboth := congr (congrArg (Expr.binary family op · · default) hlerase) hrerase
      exact ⟨_, .binary hmark hl' hr', hboth⟩
    -- Parentheses make a term of it, which can stand at any level.
    unfold Expr.tokens
    split
    · next hle => exact hwhole.loosen hle
    · refine Writes.loosen ?_ (Nat.zero_le level)
      refine ((hwhole.cons_symbol .openParen).concat_symbol .closeParen).mono ?_
      rintro _ ⟨_, _, ⟨_, us, ⟨a, rfl⟩, ⟨e', he', herase⟩, rfl⟩, ⟨b, rfl⟩, rfl⟩
      exact ⟨e', .parens he'.expression_of_level, herase⟩

theorem Expr.writes_itemTokens : (es : List Expr) → (∀ n ∈ Expr.allNodes es, n.WellFormed) →
    Writes (Expr.itemTokens es) (Expr.ItemsSpelledBy es)
  | [], _ => by
    refine Writes.nil.mono ?_
    rintro _ rfl
    exact ⟨[], .noLeading, rfl⟩
  | e :: es, h => by
    obtain ⟨he, hes⟩ := List.forall_mem_append.1 h
    have ihe := Expr.writes_tokens e he 3
    have ihes := Expr.writes_itemTokens es hes
    refine (ihe.append (ihes.cons_symbol .comma)).mono ?_
    rintro _ ⟨us, _, ⟨e', he', herase⟩, ⟨_, vs, ⟨b, rfl⟩, ⟨es', hes', hesrase⟩, rfl⟩, rfl⟩
    have hboth := congr (congrArg List.cons herase) hesrase
    exact ⟨_, .cons_leading he' hes', hboth⟩

end

/-- Tokens that spell the bounds of a loop, but for the places. -/
def Range.SpelledBy (r : Range) (us : Tokens) : Prop :=
  ∃ r', Derives (.range r') us ∧ r'.eraseSpans = r.eraseSpans

theorem Range.writes_tokens (r : Range) (h : ∀ n ∈ r.nodes, n.WellFormed) :
    Writes r.tokens r.SpelledBy := by
  obtain ⟨-, hbounds⟩ := List.forall_mem_cons.1 h
  obtain ⟨hlo, hhi⟩ := List.forall_mem_append.1 hbounds
  have ihlo := r.lo.writes_tokens hlo 3
  have ihhi := r.hi.writes_tokens hhi 3
  refine (ihlo.append (ihhi.cons_symbol .range)).mono ?_
  rintro _ ⟨us, _, ⟨lo', hlo', hloerase⟩, ⟨_, vs, ⟨b, rfl⟩, ⟨hi', hhi', hhierase⟩, rfl⟩, rfl⟩
  have hboth := congr (congrArg (Range.mk · · default) hloerase) hhierase
  exact ⟨_, .range hlo' hhi', hboth⟩

/-- Tokens that spell the statement, but for the places. -/
def Stmt.SpelledBy (s : Stmt) (us : Tokens) : Prop :=
  ∃ s', Derives (.statement s') us ∧ s'.mapSpans (fun _ => default) = s.mapSpans fun _ => default

/-- Tokens of a phrase that is made of the statements, but for the places. -/
def Stmt.AllSpelledBy (phrase : List Stmt → Phrase) (ss : List Stmt) (us : Tokens) : Prop :=
  ∃ ss', Derives (phrase ss') us ∧
    Stmt.mapAllSpans (fun _ => default) ss' = Stmt.mapAllSpans (fun _ => default) ss

theorem Writes.block {ss : List Stmt} {ws : List Token}
    (h : Writes ws (Stmt.AllSpelledBy .statements ss)) :
    Writes (Token.block ws) (Stmt.AllSpelledBy .block ss) := by
  refine ((h.cons_symbol .openBrace).concat_symbol .closeBrace).mono ?_
  rintro _ ⟨_, _, ⟨_, us, ⟨a, rfl⟩, ⟨ss', hss', herase⟩, rfl⟩, ⟨b, rfl⟩, rfl⟩
  exact ⟨ss', .block hss', herase⟩

mutual

theorem Stmt.writes_tokens : (s : Stmt) → (∀ n ∈ s.nodes, n.WellFormed) →
    Writes s.tokens s.SpelledBy
  | .assign name e s, h => by
    obtain ⟨hname, he⟩ := List.forall_mem_cons.1 h
    have ih := e.writes_tokens he 3
    refine (((ih.cons_symbol .assign).cons_name hname).concat_symbol .semicolon).mono ?_
    rintro _ ⟨_, _, ⟨_, _, ⟨a, rfl⟩, ⟨_, us, ⟨b, rfl⟩, ⟨e', he', herase⟩, rfl⟩, rfl⟩, ⟨c, rfl⟩, rfl⟩
    exact ⟨_, .assign he', congrArg (Stmt.assign name · default) herase⟩
  | .indexAssign name position e s, h => by
    obtain ⟨hname, hparts⟩ := List.forall_mem_cons.1 h
    obtain ⟨hposition, he⟩ := List.forall_mem_append.1 hparts
    have ihi := position.writes_tokens hposition 3
    have ihe := e.writes_tokens he 3
    refine (((ihi.target hname).append (ihe.cons_symbol .assign)).concat_symbol .semicolon).mono ?_
    rintro _ ⟨_, _, ⟨us, _, ⟨i', hi', hierase⟩, ⟨_, vs, ⟨b, rfl⟩, ⟨e', he', herase⟩, rfl⟩, rfl⟩,
      ⟨c, rfl⟩, rfl⟩
    have hboth := congr (congrArg (Stmt.indexAssign name · · default) hierase) herase
    exact ⟨_, .indexAssign hi' he', hboth⟩
  | .print e s, h => by
    obtain ⟨-, he⟩ := List.forall_mem_cons.1 h
    have ih := e.writes_tokens he 3
    refine ((ih.cons_symbol .print).concat_symbol .semicolon).mono ?_
    rintro _ ⟨_, _, ⟨_, us, ⟨a, rfl⟩, ⟨e', he', herase⟩, rfl⟩, ⟨b, rfl⟩, rfl⟩
    exact ⟨_, .print he', congrArg (Stmt.print · default) herase⟩
  | .printLine e s, h => by
    obtain ⟨-, he⟩ := List.forall_mem_cons.1 h
    have ih := e.writes_tokens he 3
    refine ((ih.cons_symbol .println).concat_symbol .semicolon).mono ?_
    rintro _ ⟨_, _, ⟨_, us, ⟨a, rfl⟩, ⟨e', he', herase⟩, rfl⟩, ⟨b, rfl⟩, rfl⟩
    exact ⟨_, .printLine he', congrArg (Stmt.printLine · default) herase⟩
  | .loop var r body s, h => by
    obtain ⟨hvar, hparts⟩ := List.forall_mem_cons.1 h
    obtain ⟨hr, hbody⟩ := List.forall_mem_append.1 hparts
    have ihr := r.writes_tokens hr
    have ihb := (Stmt.writes_allTokens body hbody).block
    refine ((((ihr.cons_symbol .within).cons_name hvar).cons_symbol .loop).append ihb).mono ?_
    rintro _ ⟨_, us, ⟨_, _, ⟨a, rfl⟩, ⟨_, _, ⟨b, rfl⟩, ⟨_, vs, ⟨c, rfl⟩, ⟨r', hr', hrerase⟩, rfl⟩,
      rfl⟩, rfl⟩, ⟨ss', hss', hsserase⟩, rfl⟩
    have hboth := congr (congrArg (Stmt.loop var · · default) hrerase) hsserase
    exact ⟨_, .loop hr' hss', hboth⟩
  | .branch cond thenBody none s, h => by
    obtain ⟨-, hparts⟩ := List.forall_mem_cons.1 h
    obtain ⟨hcond, hthen⟩ := List.forall_mem_append.1 hparts
    have ihc := cond.writes_tokens hcond 3
    have iht := (Stmt.writes_allTokens thenBody hthen).block
    refine ((ihc.cons_symbol .cond).append iht).mono ?_
    rintro _ ⟨_, us, ⟨_, vs, ⟨a, rfl⟩, ⟨c', hc', hcerase⟩, rfl⟩, ⟨ss', hss', hsserase⟩, rfl⟩
    have hboth := congr (congrArg (Stmt.branch · · none default) hcerase) hsserase
    exact ⟨_, .branch hc' hss', hboth⟩
  | .branch cond thenBody (some elseBody) s, h => by
    obtain ⟨-, hparts⟩ := List.forall_mem_cons.1 h
    obtain ⟨hparts, helse⟩ := List.forall_mem_append.1 hparts
    obtain ⟨hcond, hthen⟩ := List.forall_mem_append.1 hparts
    have ihc := cond.writes_tokens hcond 3
    have iht := (Stmt.writes_allTokens thenBody hthen).block
    have ihe := (Stmt.writes_allTokens elseBody helse).block
    refine (((ihc.cons_symbol .cond).append iht).append (ihe.cons_symbol .otherwise)).mono ?_
    rintro _ ⟨_, _, ⟨_, us, ⟨_, vs, ⟨a, rfl⟩, ⟨c', hc', hcerase⟩, rfl⟩, ⟨ss', hss', hsserase⟩, rfl⟩,
      ⟨_, ws, ⟨b, rfl⟩, ⟨rs', hrs', hrserase⟩, rfl⟩, rfl⟩
    have hall := congr (congr (congrArg
      (fun c ss rs => Stmt.branch c ss (some rs) default) hcerase) hsserase) hrserase
    exact ⟨_, .branchElse hc' hss' hrs', hall⟩

theorem Stmt.writes_allTokens : (ss : List Stmt) → (∀ n ∈ Stmt.allNodes ss, n.WellFormed) →
    Writes (Stmt.allTokens ss) (Stmt.AllSpelledBy .statements ss)
  | [], _ => by
    refine Writes.nil.mono ?_
    rintro _ rfl
    exact ⟨[], .noStatement, rfl⟩
  | s :: ss, h => by
    obtain ⟨hs, hss⟩ := List.forall_mem_append.1 h
    have ihs := Stmt.writes_tokens s hs
    have ihss := Stmt.writes_allTokens ss hss
    refine (ihs.append ihss).mono ?_
    rintro _ ⟨us, vs, ⟨s', hs', herase⟩, ⟨ss', hss', hsserase⟩, rfl⟩
    have hboth := congr (congrArg List.cons herase) hsserase
    exact ⟨_, .cons_statements hs' hss', hboth⟩

end

/-! ## The trees of sources -/

theorem exists_compile_render {p : Program} (h : p.WellFormed) :
    ∃ q, compile p.render = .ok q ∧ q.eraseSpans = p.eraseSpans := by
  have hwrites := Stmt.writes_allTokens p.stmts h
  obtain ⟨ts, htokens, hts⟩ := (readsAs_joined hwrites.written).exists_tokenize
  obtain ⟨ss, hss, herase⟩ := hwrites.holds ts hts
  exact ⟨⟨ss⟩, compile_eq_ok_iff.2 ⟨ts, htokens, .program hss⟩, congrArg Program.mk herase⟩

/-- An operand on the right has parentheses at the level of its operator. -/
example : Program.render ⟨[.print (.binary .sum .sub (.number 1 default)
    (.binary .sum .add (.number 2 default) (.number 3 default) default) default) default]⟩ =
      "print 1 - ( 2 + 3 ) ;" := by cbv

/-- But for the places, the trees that sources have are the well-formed ones. -/
theorem exists_compile_iff_wellFormed (p : Program) :
    (∃ source q, compile source = .ok q ∧ q.eraseSpans = p.eraseSpans) ↔ p.WellFormed := by
  constructor
  · rintro ⟨source, q, hcompile, herase⟩
    have hq := wellFormed_of_compile hcompile
    rwa [← Program.wellFormed_eraseSpans, herase, Program.wellFormed_eraseSpans] at hq
  · intro h
    obtain ⟨q, hq⟩ := exists_compile_render h
    exact ⟨p.render, q, hq⟩

end Scriptlet
