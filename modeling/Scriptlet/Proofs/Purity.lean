-- Evaluation changes nothing. It makes new lists, and whether or not it comes to a
-- value, the lists that were there keep their items. Its faults are of values, or at
-- a node that has an operator of another family.
import Scriptlet.Proofs.Faults
import Scriptlet.Proofs.Nodes.Members

namespace Scriptlet

/-! ## Heaps that only gain lists -/

/-- More lists, and each of the old ones with the items that it had. -/
structure Heap.Grows (h h' : Heap) : Prop where
  size_le : h.size ≤ h'.size
  items_eq : ∀ r < h.size, h'.items r = h.items r

namespace Heap

theorem Grows.refl (h : Heap) : h.Grows h := ⟨Nat.le_refl _, fun _ _ => rfl⟩

theorem Grows.trans {h h' h'' : Heap} (a : h.Grows h') (b : h'.Grows h'') : h.Grows h'' := by
  refine ⟨Nat.le_trans a.size_le b.size_le, fun r hr => ?_⟩
  rw [b.items_eq r (Nat.lt_of_lt_of_le hr a.size_le), a.items_eq r hr]

theorem grows_alloc (h : Heap) (vs : List Value) : h.Grows (h.alloc vs).2 := by
  constructor
  · simp [alloc, size]
  · intro r hr
    have hget : (h.lists.push vs.toArray)[r]? = h.lists[r]? := Array.getElem?_push_lt hr ▸
      (Array.getElem?_eq_getElem hr).symm
    simp [alloc, items, Array.getD_eq_getD_getElem?, hget]

end Heap

/-! ## Causes in a tree -/

/-- Whether the operator of the node, if it has one, is of the node's own family. -/
def Node.OperatorFits : Node → Prop
  | expression (.binary family op _ _ _) => op.family = family
  | _ => True

/-- Whether evaluating expressions with these nodes can stop for this cause: one of
values, or an operator that does not fit the node that it is on. -/
def FaultCause.ArisesIn (ns : List Node) : FaultCause → Prop
  | unknownOperator .. => ∃ n ∈ ns, ¬ n.OperatorFits
  | io _ => False
  | _ => True

namespace FaultCause

variable {ns ms : List Node} {cause : FaultCause}

theorem OfValues.arisesIn (h : cause.OfValues) (ns : List Node) : cause.ArisesIn ns := by
  cases cause with
  | unknownOperator | io => exact h.elim
  | _ => trivial

theorem ArisesIn.mono (h : cause.ArisesIn ns) (hle : ns ⊆ ms) : cause.ArisesIn ms := by
  cases cause with
  | unknownOperator =>
    obtain ⟨n, hn, hfits⟩ := h
    exact ⟨n, hle hn, hfits⟩
  | _ => exact h

end FaultCause

/-! ## Steps of evaluation -/

/-- A step that makes lists and does nothing else, and that stops only for a cause
that arises in these nodes. -/
structure Eval.Pure {α : Type} (ns : List Node) (step : Eval α) : Prop where
  ok : ∀ h a h', step h = .ok a h' → h.Grows h'
  error : ∀ h f h', step h = .error f h' → h.Grows h' ∧ f.cause.ArisesIn ns

namespace Eval.Pure

variable {α β : Type} {ns ms : List Node}

theorem pure (a : α) : Pure ns (Pure.pure a : Eval α) := by
  constructor
  · intro h b h' hstep
    cases hstep
    exact .refl h
  · intro h f h' hstep
    cases hstep

theorem throw {f : Fault} (hf : f.cause.ArisesIn ns) :
    Pure ns (MonadExcept.throw f : Eval α) := by
  constructor
  · intro h a h' hstep
    cases hstep
  · intro h f' h' hstep
    cases hstep
    exact ⟨.refl h, hf⟩

theorem mono {step : Eval α} (h : Pure ns step) (hle : ns ⊆ ms) : Pure ms step := by
  refine ⟨h.ok, fun x f y hstep => ?_⟩
  obtain ⟨hgrows, hcause⟩ := h.error x f y hstep
  exact ⟨hgrows, hcause.mono hle⟩

theorem bind {step : Eval α} {next : α → Eval β} (h : Pure ns step)
    (hnext : ∀ a, Pure ns (next a)) : Pure ns (step >>= next) := by
  constructor
  · intro x b z hbind
    obtain ⟨a, y, hstep, hafter⟩ := bind_eq_ok_iff.1 hbind
    exact (h.ok x a y hstep).trans ((hnext a).ok y b z hafter)
  · intro x f z hbind
    rcases bind_eq_error_iff.1 hbind with hstep | ⟨a, y, hstep, hafter⟩
    · exact h.error x f z hstep
    · obtain ⟨hgrows, hcause⟩ := (hnext a).error y f z hafter
      exact ⟨(h.ok x a y hstep).trans hgrows, hcause⟩

theorem alloc (vs : List Value) : Pure ns (modifyGet fun h => h.alloc vs : Eval ListRef) := by
  constructor
  · intro h r h' hstep
    cases hstep
    exact h.grows_alloc vs
  · intro h f h' hstep
    cases hstep

theorem ofExcept (s : Span) {r : Except Fault α} (hr : OfValues r) :
    Pure ns (Eval.ofExcept s r) := by
  cases r with
  | ok a => exact pure a
  | error f =>
    obtain ⟨cause, rfl, hcause⟩ := hr.exists_cause f rfl
    exact throw (hcause.arisesIn ns)

/-- A step that looks at the heap first. -/
theorem get {next : Heap → Eval α} (h : ∀ x, Pure ns (next x)) :
    Pure ns (MonadState.get >>= next) :=
  ⟨fun x => (h x).ok x, fun x => (h x).error x⟩

theorem ofKind (expected : Kind) (view : Value → Option α) (s : Span) (v : Value) :
    Pure ns (Eval.ofKind expected view s v) := by
  unfold Eval.ofKind
  split
  · exact pure _
  · exact get fun h => throw trivial

theorem listNamed (env : Environment) (name : String) (s : Span) :
    Pure ns (Eval.listNamed env name s) :=
  bind (ofExcept s (env.ofValues_read name)) fun _ => ofKind ..

end Eval.Pure

/-! ## Expressions -/

mutual

theorem Expr.pure_eval (env : Environment) : (e : Expr) → Eval.Pure e.nodes (e.eval env)
  | .number .. | .str .. => by
    unfold Expr.eval
    exact .pure _
  | .ident name s => by
    unfold Expr.eval
    exact .ofExcept s (env.ofValues_read name)
  | .list items s => by
    unfold Expr.eval
    have hitems := (Expr.pure_evalAll env items).mono (List.subset_cons_self
      (.expression (.list items s)) _)
    exact hitems.bind fun vs => .bind (.alloc vs) fun r => .pure _
  | .index name position s => by
    unfold Expr.eval
    have hposition := (Expr.pure_eval env position).mono (List.subset_cons_self
      (.expression (.index name position s)) _)
    refine (Eval.Pure.listNamed env name s).bind fun r => hposition.bind fun v => ?_
    exact .bind (.ofKind ..) fun i => .get fun h => .ofExcept s (h.ofValues_item r i)
  | .binary family op lhs rhs s => by
    unfold Expr.eval
    split
    · refine ((Expr.pure_eval env lhs).mono ?_).bind fun v =>
        ((Expr.pure_eval env rhs).mono ?_).bind fun w => ?_
      · intro n hn
        simp [nodes, hn]
      · intro n hn
        simp [nodes, hn]
      · exact .get fun h => .ofExcept s (op.ofValues_apply h v w)
    · next hfits => exact .throw ⟨_, List.mem_cons_self, hfits⟩

theorem Expr.pure_evalAll (env : Environment) :
    (es : List Expr) → Eval.Pure (Expr.allNodes es) (Expr.evalAll env es)
  | [] => by
    unfold Expr.evalAll
    exact .pure _
  | e :: es => by
    unfold Expr.evalAll
    have he := (Expr.pure_eval env e).mono (List.subset_append_left _ (allNodes es))
    have hes := (Expr.pure_evalAll env es).mono (List.subset_append_right e.nodes _)
    exact he.bind fun v => hes.bind fun vs => .pure _

end

theorem Expr.pure_evalInteger (env : Environment) (e : Expr) :
    Eval.Pure e.nodes (e.evalInteger env) :=
  (e.pure_eval env).bind fun _ => .ofKind ..

theorem Expr.pure_evalBoolean (env : Environment) (e : Expr) :
    Eval.Pure e.nodes (e.evalBoolean env) :=
  (e.pure_eval env).bind fun _ => .ofKind ..

end Scriptlet
