-- How the nodes of a tree lie in its source. Each one runs from the start of a
-- token to the end of one and holds its children, and the children of a node stand
-- one after the other. Parentheses do not disturb this: a node in parentheses is
-- narrower than the tokens that were read for it.
import Mathlib
import Scriptlet.Proofs.Compilation

namespace Scriptlet

open Grammar (Tokens Derives Phrase Ascending extent opening closing)

/-! ## Stretches beside each other -/

namespace Span

/-- A stretch that starts and ends before the other one starts. -/
def Before (s t : Span) : Prop := s.start < t.start ∧ s.stop ≤ t.start

/-- A stretch that does not reach out of the other one. -/
def Within (s t : Span) : Prop := t.start ≤ s.start ∧ s.stop ≤ t.stop

end Span

/-! ## Children -/

/-- The nodes just below a node, in the order of the source: operands, items, an
index, the bounds of a loop, and the statements of its bodies. -/
def Node.children : Node → List Node
  | expression (.list items _) => items.map expression
  | expression (.index _ position _) => [expression position]
  | expression (.binary _ _ lhs rhs _) => [expression lhs, expression rhs]
  | expression _ => []
  | range r => [expression r.lo, expression r.hi]
  | statement (.assign _ e _) | statement (.print e _) | statement (.printLine e _) =>
    [expression e]
  | statement (.indexAssign _ position e _) => [expression position, expression e]
  | statement (.loop _ r body _) => range r :: body.map statement
  | statement (.branch cond thenBody none _) => expression cond :: thenBody.map statement
  | statement (.branch cond thenBody (some elseBody) _) =>
    expression cond :: (thenBody.map statement ++ elseBody.map statement)

/-- Each of these nodes is one of `roots` or a child of another of them. -/
structure Rooted (roots ns : List Node) : Prop where
  parent : ∀ n ∈ ns, n ∈ roots ∨ ∃ m ∈ ns, n ∈ m.children

namespace Rooted

variable {roots roots' ns ms : List Node}

theorem nil : Rooted [] [] := ⟨by simp⟩

theorem append (h : Rooted roots ns) (h' : Rooted roots' ms) :
    Rooted (roots ++ roots') (ns ++ ms) := by
  refine ⟨fun n hn => ?_⟩
  rcases List.mem_append.1 hn with hn | hn
  · rcases h.parent n hn with hroot | ⟨m, hm, hchild⟩
    · exact .inl (List.mem_append_left _ hroot)
    · exact .inr ⟨m, List.mem_append_left _ hm, hchild⟩
  · rcases h'.parent n hn with hroot | ⟨m, hm, hchild⟩
    · exact .inl (List.mem_append_right _ hroot)
    · exact .inr ⟨m, List.mem_append_right _ hm, hchild⟩

/-- A node above its children. -/
theorem cons (n : Node) (h : Rooted n.children ns) : Rooted [n] (n :: ns) := by
  refine ⟨fun m hm => ?_⟩
  rcases List.mem_cons.1 hm with rfl | hm
  · exact .inl List.mem_cons_self
  · right
    rcases h.parent m hm with hchild | ⟨k, hk, hchild⟩
    · exact ⟨n, List.mem_cons_self, hchild⟩
    · exact ⟨k, List.mem_cons_of_mem _ hk, hchild⟩

end Rooted

mutual

theorem Expr.rooted : (e : Expr) → Rooted [.expression e] e.nodes
  | .number .. | .str .. | .ident .. => .cons _ .nil
  | .list items _ => .cons _ (Expr.rooted_all items)
  | .index _ position _ => .cons _ (Expr.rooted position)
  | .binary _ _ lhs rhs _ => .cons _ ((Expr.rooted lhs).append (Expr.rooted rhs))

theorem Expr.rooted_all : (es : List Expr) → Rooted (es.map .expression) (Expr.allNodes es)
  | [] => .nil
  | e :: es => (Expr.rooted e).append (Expr.rooted_all es)

end

theorem Range.rooted (r : Range) : Rooted [.range r] r.nodes :=
  .cons _ (r.lo.rooted.append r.hi.rooted)

mutual

theorem Stmt.rooted : (s : Stmt) → Rooted [.statement s] s.nodes
  | .assign _ e _ | .print e _ | .printLine e _ => .cons _ e.rooted
  | .indexAssign _ position e _ => .cons _ (position.rooted.append e.rooted)
  | .loop _ range body _ => .cons _ (range.rooted.append (Stmt.rooted_all body))
  | .branch cond thenBody none _ => .cons _ (cond.rooted.append (Stmt.rooted_all thenBody))
  | .branch cond thenBody (some elseBody) _ => by
    have h := (cond.rooted.append (Stmt.rooted_all thenBody)).append (Stmt.rooted_all elseBody)
    exact .cons _ h

theorem Stmt.rooted_all : (ss : List Stmt) → Rooted (ss.map .statement) (Stmt.allNodes ss)
  | [] => .nil
  | s :: ss => (Stmt.rooted s).append (Stmt.rooted_all ss)

end

/-! ## Nodes along tokens -/

/-- The nodes take up parts of the tokens, one after the other. -/
inductive Laid : Tokens → List Node → Prop
  | nil (ts) : Laid ts []
  | cons {us after n ns} (before) :
    us ≠ [] → n.span = extent us → Laid after ns → Laid (before ++ us ++ after) (n :: ns)

namespace Laid

variable {ts us : Tokens} {n : Node} {ns ms : List Node}

theorem skip (h : Laid ts ns) (before : Tokens) : Laid (before ++ ts) ns := by
  cases h with
  | nil => exact .nil _
  | cons before' hne hspan hafter =>
    have hcons := Laid.cons (before ++ before') hne hspan hafter
    simpa only [List.append_assoc] using hcons

theorem append (h : Laid ts ns) (h' : Laid us ms) : Laid (ts ++ us) (ns ++ ms) := by
  induction h with
  | nil ts => exact h'.skip ts
  | cons before hne hspan _ ih =>
    rw [List.append_assoc]
    exact .cons before hne hspan ih

/-- Tokens before and after change nothing. -/
theorem around (h : Laid us ns) (before after : Tokens) (heq : before ++ us ++ after = ts) :
    Laid ts ns := by
  have hafter := (h.skip before).append (.nil after)
  rw [List.append_nil, heq] at hafter
  exact hafter

theorem exists_part (h : Laid ts ns) (hn : n ∈ ns) :
    ∃ us, us <:+: ts ∧ us ≠ [] ∧ n.span = extent us := by
  induction h with
  | nil => simp at hn
  | @cons us after m ns before hne hspan _ ih =>
    rcases List.mem_cons.1 hn with rfl | hn
    · exact ⟨us, ⟨before, after, rfl⟩, hne, hspan⟩
    · obtain ⟨vs, hpart, hvs⟩ := ih hn
      exact ⟨vs, hpart.trans (List.suffix_append _ _).isInfix, hvs⟩

end Laid

/-! ## Tokens that stand in order -/

namespace Grammar

variable {ts us : Tokens}

theorem Ascending.le_extent (h : Ascending ts) {t : Token × Span} (ht : t ∈ ts) :
    (extent ts).start ≤ t.2.start ∧ t.2.stop ≤ (extent ts).stop := by
  obtain ⟨before, after, rfl⟩ := List.append_of_mem ht
  have hlt := h.start_lt
  obtain ⟨-, hafter, hbefore⟩ := List.pairwise_append.1 h.pairwise
  constructor
  · cases before with
    | nil => exact Nat.le_refl _
    | cons u before =>
      have hu := hlt u (by simp)
      have hle := hbefore u List.mem_cons_self t List.mem_cons_self
      have hopening : (extent (u :: before ++ t :: after)).start = u.2.start := rfl
      omega
  · have hclosing : (extent (before ++ t :: after)).stop = (closing (t :: after)).stop := by
      rw [extent, Span.cover_stop, closing_append before (by simp)]
    rcases after.eq_nil_or_concat with rfl | ⟨after, u, rfl⟩
    · rw [hclosing]
      exact Nat.le_refl _
    · have hu := hlt u (by simp)
      have hle := (List.pairwise_cons.1 hafter).1 u (by simp)
      have hlast : closing (t :: after.concat u) = u.2 := by
        rw [List.concat_eq_append, closing_cons t (by simp), closing_append after (by simp),
          closing_singleton]
      rw [hclosing, hlast]
      omega

/-- A part of the tokens reaches no further than all of them. -/
theorem Ascending.extent_within (h : Ascending ts) (hpart : us <:+: ts) (hne : us ≠ []) :
    (extent us).Within (extent ts) := by
  obtain ⟨t, ht, hopening⟩ := exists_mem_opening hne
  obtain ⟨u, hu, hclosing⟩ := exists_mem_closing hne
  constructor
  · have hstart := (h.le_extent (hpart.subset ht)).1
    rw [hopening] at hstart
    exact hstart
  · have hstop := (h.le_extent (hpart.subset hu)).2
    rw [hclosing] at hstop
    exact hstop

end Grammar

namespace Laid

variable {ts : Tokens} {ns : List Node}

theorem within (h : Laid ts ns) (hts : Ascending ts) :
    ∀ n ∈ ns, n.span.Within (extent ts) := by
  intro n hn
  obtain ⟨us, hpart, hne, hspan⟩ := h.exists_part hn
  rw [hspan]
  exact hts.extent_within hpart hne

theorem pairwise (h : Laid ts ns) (hts : Ascending ts) :
    ns.Pairwise fun a b => a.span.Before b.span := by
  induction h with
  | nil => exact .nil
  | @cons us after n ns before hne hspan hlaid ih =>
    have hus : us <:+: before ++ us ++ after := ⟨before, after, rfl⟩
    have hafter : after <:+: before ++ us ++ after := (List.suffix_append _ _).isInfix
    refine List.pairwise_cons.2 ⟨fun m hm => ?_, ih (hts.of_part hafter)⟩
    -- The last token of the node stands before the first one of any node after it.
    obtain ⟨vs, hvs, hvsne, hmspan⟩ := hlaid.exists_part hm
    obtain ⟨u, hu, hclosing⟩ := Grammar.exists_mem_closing hne
    obtain ⟨v, hv, hopening⟩ := Grammar.exists_mem_opening hvsne
    have hlt := (hts.of_part hus).extent_lt hne
    have hle := (List.pairwise_append.1 hts.pairwise).2.2 u (List.mem_append_right _ hu) v
      (hvs.subset hv)
    rw [hclosing, hopening] at hle
    rw [hspan, hmspan]
    exact ⟨Nat.lt_of_lt_of_le hlt hle, hle⟩

end Laid

/-! ## Nodes along the tokens that spell them -/

namespace Grammar

/-- The nodes that a phrase lists. -/
def Phrase.members : Phrase → List Node
  | program p => p.stmts.map .statement
  | statements ss | block ss => ss.map .statement
  | leading es | items es => es.map .expression
  | _ => []

/-- The children of the node that a phrase is. -/
def Phrase.children : Phrase → List Node
  | statement s => (Node.statement s).children
  | range r => (Node.range r).children
  | expression e | sum e | extremum e | term e => (Node.expression e).children
  | target _ e => [.expression e]
  | _ => []

variable {ts : Tokens} {ph : Phrase}

theorem Derives.laid_node (h : Derives ph ts) {n : Node} (hn : n ∈ ph.nodes) : Laid ts [n] := by
  obtain ⟨us, ⟨before, after, rfl⟩, hspelled⟩ := h.allSpelled.exists_part n hn
  exact .cons before hspelled.ne_nil hspelled.span_eq (.nil after)

theorem Derives.laid_members (h : Derives ph ts) : Laid ts ph.members := by
  induction h with
  | program _ ih | items _ ih => exact ih
  | nextStatement _ hs ihss _ =>
    simp only [Phrase.members, List.map_append]
    exact ihss.append (hs.laid_node (Stmt.mem_nodes _))
  | block _ ih => exact ih.around [_] [_] rfl
  | nextLeading _ he ihes _ =>
    simp only [Phrase.members, List.map_append]
    exact (ihes.append (he.laid_node (Expr.mem_nodes _))).around [] [_] rfl
  | itemsLast _ he ihes _ =>
    simp only [Phrase.members, List.map_append]
    exact ihes.append (he.laid_node (Expr.mem_nodes _))
  | _ => exact .nil _

theorem Derives.laid_operands {l r : Phrase} {us : Tokens} {e e' : Expr} (hl : Derives l ts)
    (hr : Derives r us) (hel : .expression e ∈ l.nodes) (her : .expression e' ∈ r.nodes)
    (t : Token × Span) : Laid (ts ++ t :: us) [.expression e, .expression e'] :=
  (hl.laid_node hel).append ((hr.laid_node her).skip [t])

theorem Derives.laid_children (h : Derives ph ts) : Laid ts ph.children := by
  induction h with
  | @assign name e ts a b c he _ =>
    exact (he.laid_node e.mem_nodes).around [(.ident name, a), (.symbol .assign, b)]
      [(.symbol .semicolon, c)] (by simp)
  | @indexAssign name i e ts us b c _ he ihi _ =>
    exact (ihi.append ((he.laid_node e.mem_nodes).skip [(.symbol .assign, b)])).around []
      [(.symbol .semicolon, c)] (by simp)
  | print he _ | printLine he _ => exact (he.laid_node (Expr.mem_nodes _)).around [_] [_] rfl
  | @loop var r ss ts us a b c hr hss _ _ =>
    exact ((hr.laid_node r.mem_nodes).append hss.laid_members).around
      [(.symbol .loop, a), (.ident var, b), (.symbol .within, c)] [] (by simp)
  | @branch e ss ts us a he hss _ _ =>
    exact ((he.laid_node e.mem_nodes).append hss.laid_members).skip [(.symbol .cond, a)]
  | @branchElse e ss rs ts us vs a b he hss hrs _ _ _ =>
    have hbodies := hss.laid_members.append (hrs.laid_members.skip [(.symbol .otherwise, b)])
    exact ((he.laid_node e.mem_nodes).append hbodies).around [(.symbol .cond, a)] [] (by simp)
  | range hlo hhi _ _ => exact hlo.laid_operands hhi (Expr.mem_nodes _) (Expr.mem_nodes _) _
  | @target name i ts a b c hi _ =>
    exact (hi.laid_node i.mem_nodes).around [(.ident name, a), (.symbol .openBracket, b)]
      [(.symbol .closeBracket, c)] (by simp)
  | comparison _ hl hr _ _ | sum _ hl hr _ _ | extremum _ hl hr _ _ =>
    exact hl.laid_operands hr (Expr.mem_nodes _) (Expr.mem_nodes _) _
  | ofSum _ ih | ofExtremum _ ih | ofTerm _ ih | index _ ih => exact ih
  | list h _ => exact h.laid_members.around [_] [_] rfl
  | parens _ ih => exact ih.around [_] [_] rfl
  | _ => exact .nil _

end Grammar

theorem Grammar.Spelled.laid_children {n : Node} {ts : Tokens} (h : Spelled n ts) :
    Laid ts n.children := by
  have hlaid := h.derives.laid_children
  cases n <;> exact hlaid

/-! ## Compiled programs -/

/-- Every node of a compiled program runs from the start of a token to the end of
one, on the line that the source has there. Its children lie within it, one after
the other, and so do the statements of the program in the source; and no other node
is without a parent. -/
theorem nested_of_compile {source : String} {p : Program} (h : compile source = .ok p) :
    ∃ ts, tokenize source = .ok ts ∧
      (∀ n ∈ p.nodes,
        (∃ t ∈ ts, t.2.start = n.span.start) ∧ (∃ t ∈ ts, t.2.stop = n.span.stop) ∧
        n.span.start < n.span.stop ∧ n.span.stop ≤ source.utf8ByteSize ∧
        n.span.line = 1 + lineFeedsBefore source n.span.start ∧
        (∀ m ∈ n.children, m.span.Within n.span) ∧
        n.children.Pairwise fun a b => a.span.Before b.span) ∧
      (p.stmts.Pairwise fun s t => s.span.Before t.span) ∧
      ∀ n ∈ p.nodes, (∃ s ∈ p.stmts, .statement s = n) ∨ ∃ m ∈ p.nodes, n ∈ m.children := by
  obtain ⟨ts, htokens, hp⟩ := compile_eq_ok_iff.1 h
  have hascending := ascending_of_tokenize htokens
  refine ⟨ts, htokens, ?_, ?_, ?_⟩
  · intro n hn
    obtain ⟨us, hpart, hspelled⟩ := hp.allSpelled.exists_part n hn
    obtain ⟨t, ht, hopening⟩ := Grammar.exists_mem_opening hspelled.ne_nil
    obtain ⟨u, hu, hclosing⟩ := Grammar.exists_mem_closing hspelled.ne_nil
    obtain ⟨hlt, hstop, hline⟩ := place_of_node h hn
    have hus := hascending.of_part hpart
    have hlaid := hspelled.laid_children
    refine ⟨⟨t, hpart.subset ht, ?_⟩, ⟨u, hpart.subset hu, ?_⟩, hlt, hstop, hline, ?_,
      hlaid.pairwise hus⟩
    · rw [hopening, hspelled.span_eq]
      rfl
    · rw [hclosing, hspelled.span_eq]
      rfl
    · rw [hspelled.span_eq]
      exact hlaid.within hus
  · have hpairwise := hp.laid_members.pairwise hascending
    exact (List.pairwise_map (f := Node.statement)).1 hpairwise
  · intro n hn
    rcases (Stmt.rooted_all p.stmts).parent n hn with hroot | hparent
    · exact .inl (List.mem_map.1 hroot)
    · exact .inr hparent

/-- A conditional over two lines: its condition is narrower than the parentheses
around it, and its second body starts after the first one. -/
theorem nested_of_branch :
    let source := "if (x < 1) \x7b y = 2; \x7d\nelse \x7b z = [3, (4)]; \x7d"
    let cond := Expr.binary .comparison .lt (.ident "x" ⟨4, 5, 1⟩) (.number 1 ⟨8, 9, 1⟩) ⟨4, 9, 1⟩
    let first := Stmt.assign "y" (.number 2 ⟨17, 18, 1⟩) ⟨13, 19, 1⟩
    let items := Expr.list [.number 3 ⟨34, 35, 2⟩, .number 4 ⟨38, 39, 2⟩] ⟨33, 41, 2⟩
    let second := Stmt.assign "z" items ⟨29, 42, 2⟩
    let branch := Stmt.branch cond [first] (some [second]) ⟨0, 44, 1⟩
    compile source = .ok ⟨[branch]⟩ ∧
      (Node.statement branch).children = [.expression cond, .statement first, .statement second] ∧
      cond.span.Within branch.span ∧ cond.span.Before first.span ∧
      first.span.Before second.span := by
  intro source cond first items second branch
  have hcompile : compile source = .ok ⟨[branch]⟩ := by cbv
  obtain ⟨ts, -, hnodes, -⟩ := nested_of_compile hcompile
  obtain ⟨-, -, -, -, -, hwithin, hpairwise⟩ := hnodes (.statement branch) (.head _)
  obtain ⟨hcond, hbodies⟩ := List.pairwise_cons.1 hpairwise
  refine ⟨hcompile, rfl, hwithin (.expression cond) (.head _), hcond _ (.head _), ?_⟩
  exact (List.pairwise_cons.1 hbodies).1 _ (.head _)

end Scriptlet
