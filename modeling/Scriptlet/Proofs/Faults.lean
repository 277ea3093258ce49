-- Where faults arise. Each operation on values gives its faults without a
-- place, and the step around it adds one: so every fault of a run stands at a
-- node of the program, but for the one of the flush at its end.
import Scriptlet.Execution
import Scriptlet.Proofs.Nodes

namespace Scriptlet

/-! ## Operations on values -/

/-- Whether a cause lies in values, and neither in the tree nor in the output. -/
def FaultCause.OfValues : FaultCause → Prop
  | unknownOperator .. | io _ => False
  | _ => True

/-- A result whose fault, if it is one, is of values and has no place yet. -/
structure OfValues {α : Type} (r : Except Fault α) : Prop where
  exists_cause : ∀ f, r = .error f → ∃ cause, f = .ofCause cause ∧ cause.OfValues

/-- A result whose fault, if it is one, has no place yet. -/
structure Unplaced {α : Type} (r : Except Fault α) : Prop where
  span_eq_none : ∀ f, r = .error f → f.span = none

namespace OfValues

variable {α β : Type}

theorem ok (a : α) : OfValues (.ok a) := ⟨nofun⟩

theorem error {cause : FaultCause} (h : cause.OfValues) :
    OfValues (.error (.ofCause cause) : Except Fault α) := by
  refine ⟨fun f hf => ?_⟩
  cases hf
  exact ⟨cause, rfl, h⟩

theorem map {r : Except Fault α} (h : OfValues r) (g : α → β) : OfValues (r.map g) := by
  cases r with
  | ok a => exact ok (g a)
  | error f =>
    refine ⟨fun f' hf' => ?_⟩
    cases hf'
    exact h.exists_cause f rfl

theorem unplaced {r : Except Fault α} (h : OfValues r) : Unplaced r := by
  refine ⟨fun f hf => ?_⟩
  obtain ⟨cause, rfl, -⟩ := h.exists_cause f hf
  rfl

end OfValues

theorem Environment.ofValues_read (env : Environment) (name : String) :
    OfValues (env.read name) := by
  unfold read
  split
  · exact .ok _
  · exact .error trivial

theorem Environment.unplaced_read (env : Environment) (name : String) :
    Unplaced (env.read name) := (env.ofValues_read name).unplaced

namespace Heap

theorem ofValues_position (h : Heap) (r : ListRef) (index : Int64) :
    OfValues (h.position r index) := by
  simp only [position]
  split
  · exact .ok _
  · exact .error trivial

theorem unplaced_position (h : Heap) (r : ListRef) (index : Int64) :
    Unplaced (h.position r index) := (h.ofValues_position r index).unplaced

theorem ofValues_item (h : Heap) (r : ListRef) (index : Int64) : OfValues (h.item r index) :=
  (h.ofValues_position r index).map _

theorem unplaced_item (h : Heap) (r : ListRef) (index : Int64) : Unplaced (h.item r index) :=
  (h.ofValues_item r index).unplaced

theorem ofValues_checked (operator : String) (m n : Int64) (r : Int) :
    OfValues (checked operator m n r) := by
  unfold checked
  split
  · exact .ok _
  · exact .error trivial

theorem ofValues_add (h : Heap) (v w : Value) : OfValues (h.add v w) := by
  unfold add
  split
  · exact ofValues_checked ..
  · exact .ok _
  · exact .ok _
  · exact .ok _
  · exact .error trivial

theorem ofValues_subtract (h : Heap) (v w : Value) : OfValues (h.subtract v w) := by
  unfold subtract
  split
  · exact ofValues_checked ..
  · exact .error trivial

end Heap

theorem Operation.ofValues_apply (h : Heap) (op : Operation) (v w : Value) :
    OfValues (op.apply h v w) := by
  unfold apply
  split
  any_goals exact .ok _
  any_goals exact .error trivial
  all_goals exact (h.ofValues_add ..).map some

namespace BinOp

theorem ofValues_pick (h : Heap) (op : BinOp) (wanted : Ordering) (v w : Value) :
    OfValues (op.pick h wanted v w) := by
  unfold pick
  split
  · exact .ok _
  · exact .error trivial

theorem ofValues_perform (h : Heap) (op : BinOp) (operation : Operation) (v w : Value) :
    OfValues (op.perform h operation v w) := by
  unfold perform
  split
  · next f hf =>
    obtain ⟨cause, rfl, hcause⟩ := (operation.ofValues_apply h v w).exists_cause f hf
    exact .error hcause
  · exact .ok _
  · exact .error trivial

theorem ofValues_apply (h : Heap) (op : BinOp) (v w : Value) : OfValues (op.apply h v w) := by
  cases op with
  | max | min => exact ofValues_pick ..
  | add => exact h.ofValues_add v w
  | sub => exact h.ofValues_subtract v w
  | gt | lt | eq => exact ofValues_perform ..
  | ne => exact (ofValues_perform ..).map _

theorem unplaced_apply (h : Heap) (op : BinOp) (v w : Value) : Unplaced (op.apply h v w) :=
  (op.ofValues_apply h v w).unplaced

end BinOp

/-! ## Steps -/

section Steps

variable {ρ α β : Type} {step : EStateM Fault ρ α} {next : α → EStateM Fault ρ β} {x z : ρ}

theorem bind_eq_ok_iff {b : β} : (step >>= next) x = .ok b z ↔
    ∃ a y, step x = .ok a y ∧ next a y = .ok b z := by
  simp only [Bind.bind, EStateM.bind]
  cases step x with
  | ok a y =>
    constructor
    · intro h
      exact ⟨a, y, rfl, h⟩
    · rintro ⟨b, z, heq, h⟩
      cases heq
      exact h
  | error f y => simp

/-- Two steps stop in the first one, or in the second one after it. -/
theorem bind_eq_error_iff {f : Fault} : (step >>= next) x = .error f z ↔
    step x = .error f z ∨ ∃ a y, step x = .ok a y ∧ next a y = .error f z := by
  simp only [Bind.bind, EStateM.bind]
  cases step x with
  | ok a y =>
    constructor
    · intro h
      exact .inr ⟨a, y, rfl, h⟩
    · rintro (h | ⟨b, z, heq, h⟩)
      · cases h
      · cases heq
        exact h
  | error f y => simp

end Steps

/-- A step whose faults all stand at one of these places. -/
structure FaultsAt {ρ α : Type} (spans : List Span) (step : EStateM Fault ρ α) : Prop where
  exists_mem : ∀ x f y, step x = .error f y → ∃ s ∈ spans, f.span = some s

namespace FaultsAt

variable {ρ α β : Type} {spans spans' : List Span}

theorem of_never {step : EStateM Fault ρ α} (h : ∀ x, ∃ a y, step x = .ok a y) :
    FaultsAt spans step := by
  refine ⟨fun x f y hf => ?_⟩
  obtain ⟨a, z, ha⟩ := h x
  cases hf.symm.trans ha

theorem pure (a : α) : FaultsAt spans (Pure.pure a : EStateM Fault ρ α) :=
  of_never fun x => ⟨a, x, rfl⟩

theorem mono {step : EStateM Fault ρ α} (h : FaultsAt spans step) (hle : spans ⊆ spans') :
    FaultsAt spans' step := by
  refine ⟨fun x f y hf => ?_⟩
  obtain ⟨s, hs, hspan⟩ := h.exists_mem x f y hf
  exact ⟨s, hle hs, hspan⟩

theorem bind {step : EStateM Fault ρ α} {next : α → EStateM Fault ρ β} (h : FaultsAt spans step)
    (hnext : ∀ a, FaultsAt spans (next a)) : FaultsAt spans (step >>= next) := by
  refine ⟨fun x f y hf => ?_⟩
  rcases bind_eq_error_iff.1 hf with hstep | ⟨a, z, -, hstep⟩
  · exact h.exists_mem x f y hstep
  · exact (hnext a).exists_mem z f y hstep

theorem map {step : EStateM Fault ρ α} (h : FaultsAt spans step) (g : α → β) :
    FaultsAt spans (g <$> step) := h.bind fun a => pure (g a)

theorem throw {f : Fault} {s : Span} (hs : s ∈ spans) (h : f.span = some s) :
    FaultsAt spans (MonadExcept.throw f : EStateM Fault ρ α) := by
  refine ⟨fun x f' y hf' => ?_⟩
  cases hf'
  exact ⟨s, hs, h⟩

theorem throw_within {f : Fault} {s : Span} (hs : s ∈ spans) (h : f.span = none) :
    FaultsAt spans (MonadExcept.throw (f.within s) : EStateM Fault ρ α) :=
  throw hs (by simp [Fault.within, h])

end FaultsAt

/-! ## Expressions -/

namespace Eval

variable {α : Type} {spans : List Span} {s : Span}

theorem faultsAt_ofExcept (hs : s ∈ spans) {r : Except Fault α} (h : Unplaced r) :
    FaultsAt spans (ofExcept s r) := by
  cases r with
  | ok a => exact .pure a
  | error f => exact .throw_within hs (h.span_eq_none f rfl)

theorem faultsAt_ofKind (hs : s ∈ spans) (expected : Kind) (view : Value → Option α) (v : Value) :
    FaultsAt spans (ofKind expected view s v) := by
  unfold ofKind
  split
  · exact .pure _
  · exact .bind (.of_never fun x => ⟨x, x, rfl⟩) fun h => .throw_within hs rfl

theorem faultsAt_listNamed (hs : s ∈ spans) (env : Environment) (name : String) :
    FaultsAt spans (listNamed env name s) :=
  .bind (faultsAt_ofExcept hs (env.unplaced_read name)) fun _ => faultsAt_ofKind hs ..

/-- A step that looks at the heap first. -/
theorem faultsAt_ofHeap (hs : s ∈ spans) {r : Heap → Except Fault α} (h : ∀ x, Unplaced (r x)) :
    FaultsAt spans (do ofExcept s (r (← get)) : Eval α) :=
  .bind (.of_never fun x => ⟨x, x, rfl⟩) fun x => faultsAt_ofExcept hs (h x)

end Eval

mutual

theorem Expr.faultsAt_eval (env : Environment) :
    (e : Expr) → FaultsAt e.nodeSpans (e.eval env)
  | .number .. | .str .. => by
    unfold Expr.eval
    exact .pure _
  | .ident name s => by
    unfold Expr.eval
    exact Eval.faultsAt_ofExcept (by simp [nodeSpans]) (env.unplaced_read name)
  | .list items s => by
    unfold Expr.eval
    have hitems := (Expr.faultsAt_evalAll env items).mono (List.subset_cons_self s _)
    exact hitems.bind fun vs => .bind (.of_never fun x => ⟨_, _, rfl⟩) fun r => .pure _
  | .index name position s => by
    unfold Expr.eval
    have hs : s ∈ (Expr.index name position s).nodeSpans := by simp [nodeSpans]
    have hposition : position.nodeSpans ⊆ (Expr.index name position s).nodeSpans :=
      List.subset_cons_self s _
    refine (Eval.faultsAt_listNamed hs env name).bind fun r => ?_
    refine ((Expr.faultsAt_eval env position).mono hposition).bind fun v => ?_
    refine (Eval.faultsAt_ofKind (hposition position.span_mem_nodeSpans) ..).bind fun i => ?_
    exact Eval.faultsAt_ofHeap hs fun x => x.unplaced_item r i
  | .binary family op lhs rhs s => by
    unfold Expr.eval
    have hs : s ∈ (Expr.binary family op lhs rhs s).nodeSpans := by simp [nodeSpans]
    split
    · refine ((Expr.faultsAt_eval env lhs).mono fun t ht => ?_).bind fun v => ?_
      · simp [nodeSpans, ht]
      refine ((Expr.faultsAt_eval env rhs).mono fun t ht => ?_).bind fun w => ?_
      · simp [nodeSpans, ht]
      exact Eval.faultsAt_ofHeap hs fun x => op.unplaced_apply x v w
    · exact .throw hs rfl

theorem Expr.faultsAt_evalAll (env : Environment) :
    (es : List Expr) → FaultsAt (Expr.allNodeSpans es) (Expr.evalAll env es)
  | [] => by
    unfold Expr.evalAll
    exact .pure _
  | e :: es => by
    unfold Expr.evalAll
    have he := (Expr.faultsAt_eval env e).mono (List.subset_append_left _ (allNodeSpans es))
    have hes := (Expr.faultsAt_evalAll env es).mono (List.subset_append_right e.nodeSpans _)
    exact he.bind fun v => hes.bind fun vs => .pure _

end

theorem Expr.faultsAt_evalInteger (env : Environment) (e : Expr) :
    FaultsAt e.nodeSpans (e.evalInteger env) :=
  (e.faultsAt_eval env).bind fun _ => Eval.faultsAt_ofKind e.span_mem_nodeSpans ..

theorem Expr.faultsAt_evalBoolean (env : Environment) (e : Expr) :
    FaultsAt e.nodeSpans (e.evalBoolean env) :=
  (e.faultsAt_eval env).bind fun _ => Eval.faultsAt_ofKind e.span_mem_nodeSpans ..

/-! ## Statements -/

variable {σ : Type}

namespace Exec

variable {spans : List Span}

theorem faultsAt_evaluate {α : Type} {step : Environment → Eval α}
    (h : ∀ env, FaultsAt spans (step env)) : FaultsAt spans (evaluate step : Exec σ α) := by
  refine ⟨fun w f w' hf => ?_⟩
  unfold evaluate at hf
  split at hf
  · cases hf
  · next f' heap hstep =>
    cases hf
    exact (h _).exists_mem _ _ _ hstep

theorem faultsAt_output [Output σ] {s : Span} (hs : s ∈ spans) (text : String) :
    FaultsAt spans (output s text : Exec σ Unit) := by
  refine ⟨fun w f w' hf => ?_⟩
  unfold output at hf
  split at hf
  · cases hf
  · cases hf
    exact ⟨s, hs, rfl⟩

theorem faultsAt_printValue [Output σ] (e : Expr) (ending : String) :
    FaultsAt e.nodeSpans (printValue e ending : Exec σ Value) := by
  refine (faultsAt_evaluate fun env => e.faultsAt_eval env).bind fun v => ?_
  refine .bind (.of_never fun w => ⟨w, w, rfl⟩) fun w => ?_
  exact (faultsAt_output e.span_mem_nodeSpans _).bind fun _ => .pure v

theorem faultsAt_iterate {body : Exec σ (Option Value)} (h : FaultsAt spans body) (var : String)
    (stride : Int) (n : Nat) (i : Int) : FaultsAt spans (iterate var body stride n i) := by
  induction n generalizing i with
  | zero => exact .pure _
  | succ n ih =>
    exact .bind (.of_never fun w => ⟨_, _, rfl⟩) fun _ => h.bind fun _ => ih _

theorem faultsAt_forRange {body : Exec σ (Option Value)} (h : FaultsAt spans body) (var : String)
    (lo hi : Int64) : FaultsAt spans (forRange var lo hi body) :=
  (faultsAt_iterate h ..).bind fun _ => .of_never fun _ => ⟨_, _, rfl⟩

end Exec

mutual

theorem Stmt.faultsAt_exec [Output σ] :
    (s : Stmt) → FaultsAt s.nodeSpans (s.exec : Exec σ (Option Value))
  | .assign name e s => by
    unfold Stmt.exec
    have he : FaultsAt (Stmt.assign name e s).nodeSpans
        (Exec.evaluate fun env => e.eval env : Exec σ Value) :=
      (Exec.faultsAt_evaluate fun env => e.faultsAt_eval env).mono (List.subset_cons_self s _)
    exact he.bind fun v => .bind (.of_never fun w => ⟨_, _, rfl⟩) fun _ => .pure _
  | .indexAssign name position e s => by
    unfold Stmt.exec
    have hs : s ∈ (Stmt.indexAssign name position e s).nodeSpans := by simp [nodeSpans]
    refine (Exec.faultsAt_evaluate fun env =>
      (position.faultsAt_evalInteger env).mono fun t ht => ?_).bind fun i => ?_
    · simp [nodeSpans, ht]
    refine (Exec.faultsAt_evaluate fun env =>
      Eval.faultsAt_listNamed hs env name).bind fun r => ?_
    refine (Exec.faultsAt_evaluate fun env =>
      (e.faultsAt_eval env).mono fun t ht => ?_).bind fun v => ?_
    · simp [nodeSpans, ht]
    refine (Exec.faultsAt_evaluate fun _ =>
      Eval.faultsAt_ofHeap hs fun x => x.unplaced_position r i).bind fun i => ?_
    exact .bind (.of_never fun w => ⟨_, _, rfl⟩) fun _ => .pure _
  | .print e s => by
    unfold Stmt.exec
    exact ((Exec.faultsAt_printValue e _).map some).mono (List.subset_cons_self s _)
  | .printLine e s => by
    unfold Stmt.exec
    exact ((Exec.faultsAt_printValue e _).map some).mono (List.subset_cons_self s _)
  | .loop var range body s => by
    unfold Stmt.exec
    refine (Exec.faultsAt_evaluate fun env =>
      (range.lo.faultsAt_evalInteger env).mono fun t ht => ?_).bind fun lo => ?_
    · simp [nodeSpans, Range.nodeSpans, ht]
    refine (Exec.faultsAt_evaluate fun env =>
      (range.hi.faultsAt_evalInteger env).mono fun t ht => ?_).bind fun hi => ?_
    · simp [nodeSpans, Range.nodeSpans, ht]
    refine Exec.faultsAt_forRange ((Stmt.faultsAt_execAll none body).mono fun t ht => ?_) ..
    simp [nodeSpans, ht]
  | .branch cond thenBody elseBody s => by
    unfold Stmt.exec
    have hcond (env : Environment) : FaultsAt (Stmt.branch cond thenBody elseBody s).nodeSpans
        (cond.evalBoolean env) := by
      refine (cond.faultsAt_evalBoolean env).mono fun t ht => ?_
      cases elseBody <;> simp [nodeSpans, ht]
    refine (Exec.faultsAt_evaluate hcond).bind fun taken => ?_
    split
    · refine (Stmt.faultsAt_execAll none thenBody).mono fun t ht => ?_
      cases elseBody <;> simp [nodeSpans, ht]
    · match elseBody with
      | some elseBody =>
        refine (Stmt.faultsAt_execAll none elseBody).mono fun t ht => ?_
        simp [nodeSpans, ht]
      | none => exact .pure _

theorem Stmt.faultsAt_execAll [Output σ] (last : Option Value) : (ss : List Stmt) →
    FaultsAt (Stmt.allNodeSpans ss) (Stmt.execAll last ss : Exec σ (Option Value))
  | [] => by
    unfold Stmt.execAll
    exact .pure _
  | s :: ss => by
    unfold Stmt.execAll
    have hs : FaultsAt (allNodeSpans (s :: ss)) (s.exec : Exec σ (Option Value)) :=
      (Stmt.faultsAt_exec s).mono (List.subset_append_left _ _)
    exact hs.bind fun last =>
      (Stmt.faultsAt_execAll last ss).mono (List.subset_append_right s.nodeSpans _)

end

/-- A run is stopped by one of its statements, or by the flush after all of them. -/
theorem Program.exec_of_run [Output σ] {p : Program} {w w' : WorldOf σ} {f : Fault}
    (h : p.run w = .error f w') : (∃ w₁, Stmt.execAll none p.stmts w = .error f w₁) ∨
      ∃ result w₁ message, Stmt.execAll none p.stmts w = .ok result w₁ ∧
        (Output.flush w₁.sink).2 = some message ∧ f = .ofCause (.io message) := by
  unfold run at h
  split at h
  · next result w₁ hexec =>
    right
    rcases hflush : Output.flush w₁.sink with ⟨sink, _ | message⟩
    · simp [Bind.bind, EStateM.bind, Exec.flush, hflush, Pure.pure, EStateM.pure] at h
    · simp [Bind.bind, EStateM.bind, Exec.flush, hflush] at h
      exact ⟨result, w₁, message, hexec, by rw [hflush], h.1.symm⟩
  · next f' w₁ hexec =>
    left
    cases h
    exact ⟨w₁, hexec⟩

/-- A run is stopped at a node of its program, or by the flush at the end. -/
theorem Program.fault_of_run [Output σ] {p : Program} {w w' : WorldOf σ} {f : Fault}
    (h : p.run w = .error f w') : (∃ s ∈ p.nodeSpans, f.span = some s) ∨
      ∃ result w₁ message, Stmt.execAll none p.stmts w = .ok result w₁ ∧
        (Output.flush w₁.sink).2 = some message ∧ f = .ofCause (.io message) := by
  rcases Program.exec_of_run h with ⟨w₁, hexec⟩ | hflush
  · exact .inl ((Stmt.faultsAt_execAll none p.stmts).exists_mem w f w₁ hexec)
  · exact .inr hflush

end Scriptlet
