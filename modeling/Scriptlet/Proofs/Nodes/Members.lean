-- The nodes of a tree, one by one: its statements, the bounds of its loops and
-- its expressions, at every depth. Each of them comes with all that is below it.
import Scriptlet.Proofs.Nodes

namespace Scriptlet

/-- A part of a tree that has a place of its own. -/
inductive Node where
  | statement (s : Stmt)
  | range (r : Range)
  | expression (e : Expr)

namespace Node

def span : Node → Span
  | statement s => s.span
  | range r => r.span
  | expression e => e.span

def mapSpans (f : Span → Span) : Node → Node
  | statement s => statement (s.mapSpans f)
  | range r => range (r.mapSpans f)
  | expression e => expression (e.mapSpans f)

end Node

/-! ## The nodes of a tree -/

mutual

/-- The nodes of an expression, itself first. -/
def Expr.nodes : Expr → List Node
  | .number n s => [.expression (.number n s)]
  | .str raw s => [.expression (.str raw s)]
  | .ident name s => [.expression (.ident name s)]
  | .list items s => .expression (.list items s) :: Expr.allNodes items
  | .index name position s => .expression (.index name position s) :: position.nodes
  | .binary family op lhs rhs s =>
    .expression (.binary family op lhs rhs s) :: (lhs.nodes ++ rhs.nodes)

def Expr.allNodes : List Expr → List Node
  | [] => []
  | e :: es => e.nodes ++ Expr.allNodes es

end

def Range.nodes (r : Range) : List Node := .range r :: (r.lo.nodes ++ r.hi.nodes)

mutual

/-- The nodes of a statement, itself first. -/
def Stmt.nodes : Stmt → List Node
  | .assign name e s => .statement (.assign name e s) :: e.nodes
  | .indexAssign name position e s =>
    .statement (.indexAssign name position e s) :: (position.nodes ++ e.nodes)
  | .print e s => .statement (.print e s) :: e.nodes
  | .printLine e s => .statement (.printLine e s) :: e.nodes
  | .loop var range body s =>
    .statement (.loop var range body s) :: (range.nodes ++ Stmt.allNodes body)
  | .branch cond thenBody none s =>
    .statement (.branch cond thenBody none s) :: (cond.nodes ++ Stmt.allNodes thenBody)
  | .branch cond thenBody (some elseBody) s =>
    .statement (.branch cond thenBody (some elseBody) s) ::
      (cond.nodes ++ Stmt.allNodes thenBody ++ Stmt.allNodes elseBody)

def Stmt.allNodes : List Stmt → List Node
  | [] => []
  | s :: ss => s.nodes ++ Stmt.allNodes ss

end

def Program.nodes (p : Program) : List Node := Stmt.allNodes p.stmts

theorem Expr.mem_nodes (e : Expr) : .expression e ∈ e.nodes := by
  cases e <;> simp [nodes]

theorem Stmt.mem_nodes (s : Stmt) : .statement s ∈ s.nodes := by
  rcases s with _ | _ | _ | _ | _ | ⟨_, _, _ | _, _⟩ <;> simp [nodes]

theorem Range.mem_nodes (r : Range) : .range r ∈ r.nodes := by
  simp [nodes]

@[simp] theorem Expr.allNodes_append (es fs : List Expr) :
    Expr.allNodes (es ++ fs) = Expr.allNodes es ++ Expr.allNodes fs := by
  induction es with
  | nil => rfl
  | cons e es ih => simp [allNodes, ih]

theorem Expr.allNodes_singleton (e : Expr) : Expr.allNodes [e] = e.nodes := by
  simp [allNodes]

@[simp] theorem Stmt.allNodes_append (ss rs : List Stmt) :
    Stmt.allNodes (ss ++ rs) = Stmt.allNodes ss ++ Stmt.allNodes rs := by
  induction ss with
  | nil => rfl
  | cons s ss ih => simp [allNodes, ih]

theorem Stmt.allNodes_singleton (s : Stmt) : Stmt.allNodes [s] = s.nodes := by
  simp [allNodes]

/-! ## Nodes with other stretches -/

mutual

theorem Expr.nodes_mapSpans (f : Span → Span) :
    (e : Expr) → (e.mapSpans f).nodes = e.nodes.map (Node.mapSpans f)
  | .number .. | .str .. | .ident .. => rfl
  | .list items s => by
    simp only [mapSpans, nodes, Expr.allNodes_mapAllSpans f items, List.map_cons, Node.mapSpans]
  | .index name position s => by
    simp only [mapSpans, nodes, Expr.nodes_mapSpans f position, List.map_cons, Node.mapSpans]
  | .binary family op lhs rhs s => by
    simp only [mapSpans, nodes, Expr.nodes_mapSpans f lhs, Expr.nodes_mapSpans f rhs,
      List.map_cons, List.map_append, Node.mapSpans]

theorem Expr.allNodes_mapAllSpans (f : Span → Span) :
    (es : List Expr) → Expr.allNodes (Expr.mapAllSpans f es) =
      (Expr.allNodes es).map (Node.mapSpans f)
  | [] => rfl
  | e :: es => by
    simp only [mapAllSpans, allNodes, Expr.nodes_mapSpans f e, Expr.allNodes_mapAllSpans f es,
      List.map_append]

end

theorem Range.nodes_mapSpans (f : Span → Span) (r : Range) :
    (r.mapSpans f).nodes = r.nodes.map (Node.mapSpans f) := by
  have hlo := r.lo.nodes_mapSpans f
  have hhi := r.hi.nodes_mapSpans f
  simp only [nodes, List.map_cons, List.map_append, ← hlo, ← hhi]
  rfl

mutual

theorem Stmt.nodes_mapSpans (f : Span → Span) :
    (s : Stmt) → (s.mapSpans f).nodes = s.nodes.map (Node.mapSpans f)
  | .assign .. | .indexAssign .. | .print .. | .printLine .. => by
    simp only [mapSpans, nodes, Expr.nodes_mapSpans, List.map_cons, List.map_append,
      Node.mapSpans]
  | .loop var range body s => by
    simp only [mapSpans, nodes, Range.nodes_mapSpans, Stmt.allNodes_mapAllSpans f body,
      List.map_cons, List.map_append, Node.mapSpans]
  | .branch cond thenBody none s => by
    simp only [mapSpans, nodes, Expr.nodes_mapSpans, Stmt.allNodes_mapAllSpans f thenBody,
      List.map_cons, List.map_append, Node.mapSpans]
  | .branch cond thenBody (some elseBody) s => by
    simp only [mapSpans, nodes, Expr.nodes_mapSpans, Stmt.allNodes_mapAllSpans f thenBody,
      Stmt.allNodes_mapAllSpans f elseBody, List.map_cons, List.map_append, Node.mapSpans]

theorem Stmt.allNodes_mapAllSpans (f : Span → Span) :
    (ss : List Stmt) → Stmt.allNodes (Stmt.mapAllSpans f ss) =
      (Stmt.allNodes ss).map (Node.mapSpans f)
  | [] => rfl
  | s :: ss => by
    simp only [mapAllSpans, allNodes, Stmt.nodes_mapSpans f s, Stmt.allNodes_mapAllSpans f ss,
      List.map_append]

end

theorem Program.nodes_mapSpans (f : Span → Span) (p : Program) :
    (p.mapSpans f).nodes = p.nodes.map (Node.mapSpans f) :=
  Stmt.allNodes_mapAllSpans f p.stmts

/-! ## Stretches of nodes -/

mutual

theorem Expr.nodeSpans_subset : (e : Expr) → e.nodeSpans ⊆ e.nodes.map Node.span
  | .number .. | .str .. | .ident .. => by simp [nodeSpans, nodes, Node.span, span]
  | .list items s => by
    have := Expr.allNodeSpans_subset items
    grind [nodeSpans, nodes, Node.span, span]
  | .index name position s => by
    have := Expr.nodeSpans_subset position
    grind [nodeSpans, nodes, Node.span, span]
  | .binary family op lhs rhs s => by
    have := Expr.nodeSpans_subset lhs
    have := Expr.nodeSpans_subset rhs
    grind [nodeSpans, nodes, Node.span, span]

theorem Expr.allNodeSpans_subset :
    (es : List Expr) → Expr.allNodeSpans es ⊆ (Expr.allNodes es).map Node.span
  | [] => by simp [allNodeSpans]
  | e :: es => by
    have := Expr.nodeSpans_subset e
    have := Expr.allNodeSpans_subset es
    grind [allNodeSpans, allNodes]

end

theorem Range.nodeSpans_subset (r : Range) : r.nodeSpans ⊆ r.nodes.map Node.span := by
  have := r.lo.nodeSpans_subset
  have := r.hi.nodeSpans_subset
  grind [nodeSpans, nodes]

mutual

theorem Stmt.nodeSpans_subset : (s : Stmt) → s.nodeSpans ⊆ s.nodes.map Node.span
  | .assign _ e s | .print e s | .printLine e s => by
    have := e.nodeSpans_subset
    grind [nodeSpans, nodes, Node.span, span]
  | .indexAssign _ position e s => by
    have := position.nodeSpans_subset
    have := e.nodeSpans_subset
    grind [nodeSpans, nodes, Node.span, span]
  | .loop _ range body s => by
    have := range.nodeSpans_subset
    have := Stmt.allNodeSpans_subset body
    grind [nodeSpans, nodes, Node.span, span]
  | .branch cond thenBody none s => by
    have := cond.nodeSpans_subset
    have := Stmt.allNodeSpans_subset thenBody
    grind [nodeSpans, nodes, Node.span, span]
  | .branch cond thenBody (some elseBody) s => by
    have := cond.nodeSpans_subset
    have := Stmt.allNodeSpans_subset thenBody
    have := Stmt.allNodeSpans_subset elseBody
    grind [nodeSpans, nodes, Node.span, span]

theorem Stmt.allNodeSpans_subset :
    (ss : List Stmt) → Stmt.allNodeSpans ss ⊆ (Stmt.allNodes ss).map Node.span
  | [] => by simp [allNodeSpans]
  | s :: ss => by
    have := Stmt.nodeSpans_subset s
    have := Stmt.allNodeSpans_subset ss
    grind [allNodeSpans, allNodes]

end

end Scriptlet
