-- Operators between values that they do not join. The kinds that each operator
-- joins are a table, and an operator refuses every other pair in words of its
-- own: it is named as it was written, but for `!=`, which is told through `==`.
import Scriptlet.Proofs.Effects

namespace Scriptlet

variable {h : Heap} {op : BinOp} {v w : Value} {f : Fault}

/-- Whether an operator joins a value of one kind to a value of another. -/
def BinOp.joins : BinOp → Kind → Kind → Bool
  | max, k, l | min, k, l => k = l ∧ k ≠ .list
  | add, k, l => (k = .int ∨ k = .string) ∧ (l = .int ∨ l = .string)
  | sub, k, l | gt, k, l => k = .int ∧ l = .int
  | lt, k, l | eq, k, l | ne, k, l => k = l ∧ (k = .int ∨ k = .string)

/-- The operator that is named where `op` does not join two kinds. Between an
integer and a string the comparison with `==` fails by itself, before `!=` can
turn it round. -/
def BinOp.refusedAs : BinOp → Kind → Kind → BinOp
  | ne, .int, .string | ne, .string, .int => eq
  | op, _, _ => op

/-- Whether a cause is that of an operator which does not join its operands. -/
def FaultCause.IsRefusal : FaultCause → Prop
  | unsupportedOperation .. => True
  | _ => False

theorem FaultCause.message_unsupportedOperation (operator l r : String) :
    (unsupportedOperation operator l r).message =
      "unsupported operation: " ++ operator ++ " between " ++ l ++ " and " ++ r := rfl

/-! ## Each way to a refusal -/

theorem Value.compare?_eq_none_iff :
    v.compare? w = none ↔ BinOp.max.joins v.kind w.kind = false := by
  cases v <;> cases w <;> simp [compare?, BinOp.joins, kind]

theorem Heap.checked_eq_error {operator : String} {m n : Int64} {r : Int}
    (hf : checked operator m n r = .error f) : f = .ofCause (.integerOverflow operator m n) := by
  unfold checked at hf
  split at hf
  · cases hf
  · cases hf
    rfl

namespace BinOp

theorem pick_of_not_joins {wanted : Ordering} (hop : BinOp.max.joins v.kind w.kind = false) :
    op.pick h wanted v w = .error (h.unsupported op.symbol v w) := by
  rw [← Value.compare?_eq_none_iff] at hop
  simp only [pick, hop]

theorem exists_pick_of_joins {wanted : Ordering} (hop : BinOp.max.joins v.kind w.kind = true) :
    ∃ x, op.pick h wanted v w = .ok x := by
  cases hc : v.compare? w with
  | none => simp [Value.compare?_eq_none_iff.1 hc] at hop
  | some order =>
    refine ⟨if order = wanted then w else v, ?_⟩
    simp only [pick, hc]

theorem add_of_not_joins (hop : BinOp.add.joins v.kind w.kind = false) :
    h.add v w = .error (h.unsupported "+" v w) := by
  cases v <;> cases w <;> simp [joins, Value.kind] at hop <;> simp only [Heap.add]

theorem subtract_of_not_joins (hop : BinOp.sub.joins v.kind w.kind = false) :
    h.subtract v w = .error (h.unsupported "-" v w) := by
  cases v <;> cases w <;> simp [joins, Value.kind] at hop <;> simp only [Heap.subtract]

theorem greater_of_not_joins (hop : gt.joins v.kind w.kind = false) :
    gt.perform h .greater v w = .error (h.unsupported gt.symbol v w) := by
  cases v <;> cases w <;> simp [joins, Value.kind] at hop <;> simp only [perform, Operation.apply]

theorem less_of_not_joins (hop : lt.joins v.kind w.kind = false) :
    lt.perform h .less v w = .error (h.unsupported lt.symbol v w) := by
  cases v <;> cases w <;> simp [joins, Value.kind] at hop <;>
    simp only [perform, Operation.apply, Operation.symbol, symbol]

theorem equal_of_not_joins (hop : eq.joins v.kind w.kind = false) (heq : op = eq ∨ op = ne) :
    op.perform h .equal v w = .error (h.unsupported (op.refusedAs v.kind w.kind).symbol v w) := by
  rcases heq with rfl | rfl <;> cases v <;> cases w <;> simp [joins, Value.kind] at hop <;> rfl

/-- An operator refuses every pair of kinds that it does not join. -/
theorem apply_of_not_joins (hop : op.joins v.kind w.kind = false) :
    op.apply h v w = .error (h.unsupported (op.refusedAs v.kind w.kind).symbol v w) := by
  cases op with
  | max | min => exact pick_of_not_joins hop
  | add => exact add_of_not_joins hop
  | sub => exact subtract_of_not_joins hop
  | gt => exact greater_of_not_joins hop
  | lt => exact less_of_not_joins hop
  | eq => exact equal_of_not_joins hop (.inl rfl)
  | ne => simp only [apply, equal_of_not_joins hop (.inr rfl), Except.map]

/-- Between kinds that it joins, an operator fails for nothing but a result
outside of 64 bits. -/
theorem eq_overflow_of_joins (hop : op.joins v.kind w.kind = true)
    (hf : op.apply h v w = .error f) : ∃ m n, f = .ofCause (.integerOverflow op.symbol m n) := by
  cases op with
  | max | min =>
    obtain ⟨x, hx⟩ := exists_pick_of_joins hop
    cases hx.symm.trans hf
  | add =>
    cases v <;> cases w <;> simp [joins, Value.kind] at hop <;>
      simp only [apply, Heap.add, reduceCtorEq] at hf
    exact ⟨_, _, Heap.checked_eq_error hf⟩
  | sub =>
    cases v <;> cases w <;> simp [joins, Value.kind] at hop
    exact ⟨_, _, Heap.checked_eq_error hf⟩
  | gt | lt | eq | ne =>
    cases v <;> cases w <;> simp [joins, Value.kind] at hop <;>
      simp [apply, perform, Operation.apply, Except.map] at hf

end BinOp

/-! ## Refusals of nodes -/

theorem Expr.eval_binary_of_eval {env : Environment} {lhs rhs : Expr} {s : Span} {h₁ h₂ : Heap}
    (hv : lhs.eval env h = .ok v h₁) (hw : rhs.eval env h₁ = .ok w h₂) :
    (binary op.family op lhs rhs s).eval env h = Eval.ofExcept s (op.apply h₂ v w) h₂ := by
  simp only [Expr.eval, if_true, Bind.bind, EStateM.bind, hv, hw]
  rfl

theorem Expr.eval_binary_of_not_joins {env : Environment} {lhs rhs : Expr} {s : Span} {h₁ h₂ : Heap}
    (hv : lhs.eval env h = .ok v h₁) (hw : rhs.eval env h₁ = .ok w h₂)
    (hop : op.joins v.kind w.kind = false) : (binary op.family op lhs rhs s).eval env h =
      .error ⟨.unsupportedOperation (op.refusedAs v.kind w.kind).symbol (h₂.describe v)
        (h₂.describe w), some s⟩ h₂ := by
  rw [eval_binary_of_eval hv hw, BinOp.apply_of_not_joins hop]
  rfl

/-- Where both operands of a node have values, the node refuses them if and only
if its operator does not join their kinds. The message names the operator, then
both values from the left, and its place is the node. The operator is the one
that was written, but that between an integer and a string `!=` is told as
`==`. -/
theorem Expr.eval_refuses_iff {env : Environment} {lhs rhs : Expr} {s : Span} {h₁ h₂ : Heap}
    (hv : lhs.eval env h = .ok v h₁) (hw : rhs.eval env h₁ = .ok w h₂) (f : Fault) (h' : Heap) :
    (binary op.family op lhs rhs s).eval env h = .error f h' ∧ f.cause.IsRefusal ↔
      op.joins v.kind w.kind = false ∧ h' = h₂ ∧
        f = ⟨.unsupportedOperation (op.refusedAs v.kind w.kind).symbol (h₂.describe v)
          (h₂.describe w), some s⟩ ∧
        f.message = "unsupported operation: " ++ (op.refusedAs v.kind w.kind).symbol ++
          " between " ++ h₂.describe v ++ " and " ++ h₂.describe w := by
  cases hop : op.joins v.kind w.kind with
  | false =>
    rw [eval_binary_of_not_joins hv hw hop]
    constructor
    · rintro ⟨⟨⟩, -⟩
      exact ⟨rfl, rfl, rfl, FaultCause.message_unsupportedOperation ..⟩
    · rintro ⟨-, rfl, rfl, -⟩
      exact ⟨rfl, trivial⟩
  | true =>
    constructor
    · rintro ⟨hf, hrefusal⟩
      rw [eval_binary_of_eval hv hw] at hf
      cases ha : op.apply h₂ v w with
      | ok x => simp [ha, Eval.ofExcept, pure, EStateM.pure] at hf
      | error g =>
        obtain ⟨m, n, rfl⟩ := BinOp.eq_overflow_of_joins hop ha
        rw [ha] at hf
        cases hf
        exact hrefusal.elim
    · rintro ⟨⟨⟩, -⟩

/-- An integer that is compared with a comparison, `1 != (2 < 3)`. -/
theorem Expr.eval_refuses_bool :
    let less := binary .comparison .lt (.number 2 ⟨6, 7, 1⟩) (.number 3 ⟨10, 11, 1⟩) ⟨6, 11, 1⟩
    ∃ f, (binary .comparison .ne (.number 1 ⟨0, 1, 1⟩) less ⟨0, 12, 1⟩).eval .empty .empty =
        .error f .empty ∧ f.span = some ⟨0, 12, 1⟩ ∧
      f.message = "unsupported operation: != between int 1 and bool true" := by
  intro less
  have hless : less.eval .empty .empty = .ok (.bool true) .empty := rfl
  have hone : (number 1 ⟨0, 1, 1⟩).eval .empty .empty = .ok (.int 1) .empty := rfl
  have hint : Heap.empty.describe (.int 1) = "int 1" := by cbv
  have hbool : Heap.empty.describe (.bool true) = "bool true" := by cbv
  let f : Fault := ⟨.unsupportedOperation "!=" "int 1" "bool true", some ⟨0, 12, 1⟩⟩
  have hrefusal := @eval_refuses_iff _ .ne _ _ _ _ _ ⟨0, 12, 1⟩ _ _ hone hless f .empty
  rw [hint, hbool] at hrefusal
  obtain ⟨hf, -⟩ := hrefusal.2 ⟨rfl, rfl, rfl, rfl⟩
  exact ⟨f, hf, rfl, by decide⟩

/-- An integer that is compared with a string, `1 != ""`, is told as `1 == ""`. -/
theorem Expr.eval_misnames_inequality :
    ∃ f, (binary .comparison .ne (.number 1 ⟨0, 1, 1⟩) (.str "\"\"" ⟨5, 7, 1⟩) ⟨0, 7, 1⟩).eval
        .empty .empty = .error f .empty ∧ f.cause.IsRefusal ∧
      f.message = "unsupported operation: == between int 1 and string \"\"" ∧
      f.message ≠ "unsupported operation: " ++ BinOp.ne.symbol ++ " between " ++
        Heap.empty.describe (.int 1) ++ " and " ++ Heap.empty.describe (.str "") := by
  have hint : Heap.empty.describe (.int 1) = "int 1" := by cbv
  have hstr : Heap.empty.describe (.str "") = "string \"\"" := by cbv
  have hone : (number 1 ⟨0, 1, 1⟩).eval .empty .empty = .ok (.int 1) .empty := rfl
  have hempty : (Expr.str "\"\"" ⟨5, 7, 1⟩).eval .empty .empty = .ok (.str "") .empty := rfl
  have hmessage : "unsupported operation: == between int 1 and string \"\"" ≠
      "unsupported operation: != between int 1 and string \"\"" := by decide
  have heval := @eval_binary_of_not_joins _ .ne _ _ _ _ _ ⟨0, 7, 1⟩ _ _ hone hempty rfl
  rw [hint, hstr] at heval
  refine ⟨_, heval, trivial, by decide, ?_⟩
  rw [hint, hstr]
  exact hmessage

end Scriptlet
