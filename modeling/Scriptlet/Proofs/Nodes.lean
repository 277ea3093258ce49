-- The stretches that the nodes of a tree carry: listed, and replaced by others.
-- In the list only expressions and statements count. The bounds of a loop are
-- nodes, the pair of them is not.
import Scriptlet.Syntax

namespace Scriptlet

/-! ## Stretches of nodes -/

mutual

/-- The span of every node of an expression. -/
def Expr.nodeSpans : Expr → List Span
  | .number _ s | .str _ s | .ident _ s => [s]
  | .list items s => s :: Expr.allNodeSpans items
  | .index _ position s => s :: position.nodeSpans
  | .binary _ _ lhs rhs s => s :: (lhs.nodeSpans ++ rhs.nodeSpans)

def Expr.allNodeSpans : List Expr → List Span
  | [] => []
  | e :: es => e.nodeSpans ++ Expr.allNodeSpans es

end

def Range.nodeSpans (r : Range) : List Span := r.lo.nodeSpans ++ r.hi.nodeSpans

mutual

/-- The span of every node of a statement. -/
def Stmt.nodeSpans : Stmt → List Span
  | .assign _ e s | .print e s | .printLine e s => s :: e.nodeSpans
  | .indexAssign _ position e s => s :: (position.nodeSpans ++ e.nodeSpans)
  | .loop _ range body s => s :: (range.nodeSpans ++ Stmt.allNodeSpans body)
  | .branch cond thenBody none s => s :: (cond.nodeSpans ++ Stmt.allNodeSpans thenBody)
  | .branch cond thenBody (some elseBody) s =>
    s :: (cond.nodeSpans ++ Stmt.allNodeSpans thenBody ++ Stmt.allNodeSpans elseBody)

def Stmt.allNodeSpans : List Stmt → List Span
  | [] => []
  | s :: ss => s.nodeSpans ++ Stmt.allNodeSpans ss

end

def Program.nodeSpans (p : Program) : List Span := Stmt.allNodeSpans p.stmts

theorem Expr.span_mem_nodeSpans (e : Expr) : e.span ∈ e.nodeSpans := by
  cases e <;> simp [span, nodeSpans]

theorem Stmt.span_mem_nodeSpans (s : Stmt) : s.span ∈ s.nodeSpans := by
  rcases s with _ | _ | _ | _ | _ | ⟨_, _, _ | _, _⟩ <;> simp [span, nodeSpans]

@[simp] theorem Expr.allNodeSpans_append (es fs : List Expr) :
    Expr.allNodeSpans (es ++ fs) = Expr.allNodeSpans es ++ Expr.allNodeSpans fs := by
  induction es with
  | nil => rfl
  | cons e es ih => simp [allNodeSpans, ih]

@[simp] theorem Stmt.allNodeSpans_append (ss rs : List Stmt) :
    Stmt.allNodeSpans (ss ++ rs) = Stmt.allNodeSpans ss ++ Stmt.allNodeSpans rs := by
  induction ss with
  | nil => rfl
  | cons s ss ih => simp [allNodeSpans, ih]

/-! ## Other stretches -/

mutual

/-- The same expression with every stretch changed. -/
def Expr.mapSpans (f : Span → Span) : Expr → Expr
  | .number n s => .number n (f s)
  | .str raw s => .str raw (f s)
  | .ident name s => .ident name (f s)
  | .list items s => .list (Expr.mapAllSpans f items) (f s)
  | .index name position s => .index name (position.mapSpans f) (f s)
  | .binary family op lhs rhs s => .binary family op (lhs.mapSpans f) (rhs.mapSpans f) (f s)

def Expr.mapAllSpans (f : Span → Span) : List Expr → List Expr
  | [] => []
  | e :: es => e.mapSpans f :: Expr.mapAllSpans f es

end

def Range.mapSpans (f : Span → Span) (r : Range) : Range :=
  ⟨r.lo.mapSpans f, r.hi.mapSpans f, f r.span⟩

mutual

/-- The same statement with every stretch changed. -/
def Stmt.mapSpans (f : Span → Span) : Stmt → Stmt
  | .assign name e s => .assign name (e.mapSpans f) (f s)
  | .indexAssign name position e s =>
    .indexAssign name (position.mapSpans f) (e.mapSpans f) (f s)
  | .print e s => .print (e.mapSpans f) (f s)
  | .printLine e s => .printLine (e.mapSpans f) (f s)
  | .loop var range body s => .loop var (range.mapSpans f) (Stmt.mapAllSpans f body) (f s)
  | .branch cond thenBody none s =>
    .branch (cond.mapSpans f) (Stmt.mapAllSpans f thenBody) none (f s)
  | .branch cond thenBody (some elseBody) s =>
    .branch (cond.mapSpans f) (Stmt.mapAllSpans f thenBody)
      (some (Stmt.mapAllSpans f elseBody)) (f s)

def Stmt.mapAllSpans (f : Span → Span) : List Stmt → List Stmt
  | [] => []
  | s :: ss => s.mapSpans f :: Stmt.mapAllSpans f ss

end

def Program.mapSpans (f : Span → Span) (p : Program) : Program := ⟨Stmt.mapAllSpans f p.stmts⟩

theorem Expr.mapAllSpans_eq_map (f : Span → Span) (es : List Expr) :
    Expr.mapAllSpans f es = es.map (mapSpans f) := by
  induction es with
  | nil => rfl
  | cons e es ih => simp [mapAllSpans, ih]

theorem Stmt.mapAllSpans_eq_map (f : Span → Span) (ss : List Stmt) :
    Stmt.mapAllSpans f ss = ss.map (mapSpans f) := by
  induction ss with
  | nil => rfl
  | cons s ss ih => simp [mapAllSpans, ih]

@[simp] theorem Expr.span_mapSpans (f : Span → Span) (e : Expr) :
    (e.mapSpans f).span = f e.span := by
  cases e <;> rfl

/-! ## Changing stretches twice -/

mutual

theorem Expr.mapSpans_mapSpans (f g : Span → Span) :
    (e : Expr) → (e.mapSpans f).mapSpans g = e.mapSpans (g ∘ f)
  | .number .. | .str .. | .ident .. => rfl
  | .list items s => by
    simp only [mapSpans, Expr.mapAllSpans_mapAllSpans f g items, Function.comp]
  | .index name position s => by
    simp only [mapSpans, Expr.mapSpans_mapSpans f g position, Function.comp]
  | .binary family op lhs rhs s => by
    simp only [mapSpans, Expr.mapSpans_mapSpans f g lhs, Expr.mapSpans_mapSpans f g rhs,
      Function.comp]

theorem Expr.mapAllSpans_mapAllSpans (f g : Span → Span) :
    (es : List Expr) → Expr.mapAllSpans g (Expr.mapAllSpans f es) = Expr.mapAllSpans (g ∘ f) es
  | [] => rfl
  | e :: es => by
    simp only [mapAllSpans, Expr.mapSpans_mapSpans f g e, Expr.mapAllSpans_mapAllSpans f g es]

end

theorem Range.mapSpans_mapSpans (f g : Span → Span) (r : Range) :
    (r.mapSpans f).mapSpans g = r.mapSpans (g ∘ f) := by
  simp only [mapSpans, Expr.mapSpans_mapSpans, Function.comp]

mutual

theorem Stmt.mapSpans_mapSpans (f g : Span → Span) :
    (s : Stmt) → (s.mapSpans f).mapSpans g = s.mapSpans (g ∘ f)
  | .assign .. | .indexAssign .. | .print .. | .printLine .. => by
    simp only [mapSpans, Expr.mapSpans_mapSpans, Function.comp]
  | .loop var range body s => by
    simp only [mapSpans, Range.mapSpans_mapSpans, Stmt.mapAllSpans_mapAllSpans f g body,
      Function.comp]
  | .branch cond thenBody none s => by
    simp only [mapSpans, Expr.mapSpans_mapSpans, Stmt.mapAllSpans_mapAllSpans f g thenBody,
      Function.comp]
  | .branch cond thenBody (some elseBody) s => by
    simp only [mapSpans, Expr.mapSpans_mapSpans, Stmt.mapAllSpans_mapAllSpans f g thenBody,
      Stmt.mapAllSpans_mapAllSpans f g elseBody, Function.comp]

theorem Stmt.mapAllSpans_mapAllSpans (f g : Span → Span) :
    (ss : List Stmt) → Stmt.mapAllSpans g (Stmt.mapAllSpans f ss) = Stmt.mapAllSpans (g ∘ f) ss
  | [] => rfl
  | s :: ss => by
    simp only [mapAllSpans, Stmt.mapSpans_mapSpans f g s, Stmt.mapAllSpans_mapAllSpans f g ss]

end

/-! ## No stretches -/

/-- The expression without its places. -/
def Expr.eraseSpans (e : Expr) : Expr := e.mapSpans fun _ => default

def Range.eraseSpans (r : Range) : Range := r.mapSpans fun _ => default

def Program.eraseSpans (p : Program) : Program := p.mapSpans fun _ => default

@[simp] theorem Expr.eraseSpans_mapSpans (f : Span → Span) (e : Expr) :
    (e.mapSpans f).eraseSpans = e.eraseSpans := e.mapSpans_mapSpans f _

@[simp] theorem Range.eraseSpans_mapSpans (f : Span → Span) (r : Range) :
    (r.mapSpans f).eraseSpans = r.eraseSpans := r.mapSpans_mapSpans f _

end Scriptlet
