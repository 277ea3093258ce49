-- The nodes of a tree and their tokens. Every node is spelled by neighbouring
-- tokens of those that spell the whole, and stands from the first of them to the
-- last. Parentheses around an expression are not among them.
import Scriptlet.Proofs.Grammar
import Scriptlet.Proofs.Nodes.Members

namespace Scriptlet

open Grammar

/-- The phrase that a node is by itself. -/
def Node.phrase : Node → Phrase
  | statement s => .statement s
  | range r => .range r
  | expression e => .expression e

namespace Grammar

/-- The nodes of a phrase. -/
def Phrase.nodes : Phrase → List Node
  | program p => p.nodes
  | statements ss | block ss => Stmt.allNodes ss
  | statement s => s.nodes
  | range r => r.nodes
  | target _ e | expression e | sum e | extremum e | term e => e.nodes
  | leading es | items es => Expr.allNodes es

/-- `ts` spell the node, from the start of its stretch to the end. -/
structure Spelled (n : Node) (ts : Tokens) : Prop where
  derives : Derives n.phrase ts
  span_eq : n.span = extent ts

theorem Spelled.ne_nil {n : Node} {ts : Tokens} (h : Spelled n ts) : ts ≠ [] := by
  apply h.derives.ne_nil
  cases n <;> trivial

/-- Each of these nodes is spelled by neighbouring tokens of `ts`. -/
structure AllSpelled (ts : Tokens) (ns : List Node) : Prop where
  exists_part : ∀ n ∈ ns, ∃ us, us <:+: ts ∧ Spelled n us

namespace AllSpelled

variable {ts us : Tokens} {n : Node} {ns ms : List Node}

theorem nil : AllSpelled ts [] := ⟨by simp⟩

/-- The node that all the tokens spell, and others. -/
theorem cons (hd : Derives n.phrase ts) (hs : n.span = extent ts) (h : AllSpelled ts ns) :
    AllSpelled ts (n :: ns) :=
  ⟨List.forall_mem_cons.2 ⟨⟨ts, List.infix_rfl, hd, hs⟩, h.exists_part⟩⟩

theorem append (h : AllSpelled ts ns) (h' : AllSpelled ts ms) : AllSpelled ts (ns ++ ms) :=
  ⟨List.forall_mem_append.2 ⟨h.exists_part, h'.exists_part⟩⟩

/-- Tokens before and after change nothing. -/
theorem around (h : AllSpelled us ns) (before after : Tokens)
    (heq : before ++ us ++ after = ts) : AllSpelled ts ns := by
  refine ⟨fun n hn => ?_⟩
  obtain ⟨vs, hvs, hspelled⟩ := h.exists_part n hn
  exact ⟨vs, hvs.trans ⟨before, after, heq⟩, hspelled⟩

/-- Two operands with a token between them, and the node that all these tokens spell. -/
theorem joined {t : Token × Span} (hl : AllSpelled ts ns) (hr : AllSpelled us ms) (hts : ts ≠ [])
    (hus : us ≠ []) (hd : Derives n.phrase (ts ++ t :: us))
    (hs : n.span = .cover (opening ts) (closing us)) :
    AllSpelled (ts ++ t :: us) (n :: (ns ++ ms)) := by
  refine .cons hd (by simp [hs, extent, hts, hus]) (.append ?_ ?_)
  · exact hl.around [] (t :: us) (by simp)
  · exact hr.around (ts ++ [t]) [] (by simp)

end AllSpelled

theorem Derives.allSpelled {ph : Phrase} {ts : Tokens} (h : Derives ph ts) :
    AllSpelled ts ph.nodes := by
  induction h with
  | program _ ih => exact ih
  | noStatement => exact .nil
  | @nextStatement ss s ts us _ _ ihss ihs =>
    simp only [Phrase.nodes, Stmt.allNodes_append, Stmt.allNodes_singleton]
    exact (ihss.around [] us (by simp)).append (ihs.around ts [] (by simp))
  | block _ ih => exact ih.around [_] [_] rfl
  | @assign name e ts a b c he ih =>
    refine .cons (.assign he) (by simp [Node.span, Stmt.span, extent]) ?_
    exact ih.around [(.ident name, a), (.symbol .assign, b)] [(.symbol .semicolon, c)] (by simp)
  | @indexAssign name i e ts us b c hi he ihi ihe =>
    refine .cons (.indexAssign hi he)
      (by simp [Node.span, Stmt.span, extent, hi.ne_nil trivial]) (.append ?_ ?_)
    · exact ihi.around [] ((.symbol .assign, b) :: us ++ [(.symbol .semicolon, c)]) (by simp)
    · exact ihe.around (ts ++ [(.symbol .assign, b)]) [(.symbol .semicolon, c)] (by simp)
  | print he ih =>
    exact .cons (.print he) (by simp [Node.span, Stmt.span, extent]) (ih.around [_] [_] rfl)
  | printLine he ih =>
    exact .cons (.printLine he) (by simp [Node.span, Stmt.span, extent])
      (ih.around [_] [_] rfl)
  | @loop var r ss ts us a b c hr hss ihr ihss =>
    refine .cons (.loop hr hss) (by simp [Node.span, Stmt.span, extent, hss.ne_nil trivial])
      (.append ?_ ?_)
    · exact ihr.around [(.symbol .loop, a), (.ident var, b), (.symbol .within, c)] us (by simp)
    · exact ihss.around ((.symbol .loop, a) :: (.ident var, b) :: (.symbol .within, c) :: ts) []
        (by simp)
  | @branch e ss ts us a he hss ihe ihss =>
    refine .cons (.branch he hss) (by simp [Node.span, Stmt.span, extent, hss.ne_nil trivial])
      (.append ?_ ?_)
    · exact ihe.around [(.symbol .cond, a)] us (by simp)
    · exact ihss.around ((.symbol .cond, a) :: ts) [] (by simp)
  | @branchElse e ss rs ts us vs a b he hss hrs ihe ihss ihrs =>
    refine .cons (.branchElse he hss hrs)
      (by simp [Node.span, Stmt.span, extent, hrs.ne_nil trivial]) (.append (.append ?_ ?_) ?_)
    · exact ihe.around [(.symbol .cond, a)] (us ++ (.symbol .otherwise, b) :: vs) (by simp)
    · exact ihss.around ((.symbol .cond, a) :: ts) ((.symbol .otherwise, b) :: vs) (by simp)
    · exact ihrs.around ((.symbol .cond, a) :: ts ++ us ++ [(.symbol .otherwise, b)]) [] (by simp)
  | range hlo hhi ihlo ihhi =>
    exact ihlo.joined ihhi (hlo.ne_nil trivial) (hhi.ne_nil trivial) (.range hlo hhi) rfl
  | @target name i ts a b c _ ih =>
    exact ih.around [(.ident name, a), (.symbol .openBracket, b)] [(.symbol .closeBracket, c)]
      (by simp)
  | comparison hop hl hr ihl ihr =>
    exact ihl.joined ihr (hl.ne_nil trivial) (hr.ne_nil trivial) (.comparison hop hl hr) rfl
  | sum hop hl hr ihl ihr =>
    exact ihl.joined ihr (hl.ne_nil trivial) (hr.ne_nil trivial) (.ofSum (.sum hop hl hr)) rfl
  | extremum hop hl hr ihl ihr =>
    exact ihl.joined ihr (hl.ne_nil trivial) (hr.ne_nil trivial)
      (.ofSum (.ofExtremum (.extremum hop hl hr))) rfl
  | ofSum _ ih | ofExtremum _ ih | ofTerm _ ih | items _ ih => exact ih
  | number => exact .cons (Derives.number).expression_of_term rfl .nil
  | str => exact .cons (Derives.str).expression_of_term rfl .nil
  | ident => exact .cons (Derives.ident).expression_of_term rfl .nil
  | index h ih => exact .cons (Derives.index h).expression_of_term rfl ih
  | list h ih =>
    exact .cons (Derives.list h).expression_of_term (by simp [Node.span, Expr.span, extent])
      (ih.around [_] [_] rfl)
  | parens _ ih => exact ih.around [_] [_] rfl
  | noLeading => exact .nil
  | @nextLeading es e ts us b _ _ ihes ihe =>
    simp only [Phrase.nodes, Expr.allNodes_append, Expr.allNodes_singleton]
    refine .append ?_ ?_
    · exact ihes.around [] (us ++ [(.symbol .comma, b)]) (by simp)
    · exact ihe.around ts [(.symbol .comma, b)] rfl
  | @itemsLast es e ts us _ _ ihes ihe =>
    simp only [Phrase.nodes, Expr.allNodes_append, Expr.allNodes_singleton]
    exact (ihes.around [] us (by simp)).append (ihe.around ts [] (by simp))

end Grammar

end Scriptlet
