-- Operators on nodes of their own family. A source writes no others, and a program
-- without others is never stopped for an operator that its node does not know.
import Scriptlet.Proofs.Nodes.WellFormed
import Scriptlet.Proofs.Reaching

namespace Scriptlet

/-- Whether every operator of the program is of the family of its node. -/
def Program.OperatorsFit (p : Program) : Prop := ∀ n ∈ p.nodes, n.OperatorFits

/-- Whether no run with an output of type `σ` stops for an unknown operator. -/
def Program.KnowsOperators (σ : Type) [Output σ] (p : Program) : Prop :=
  ∀ (w v : WorldOf σ) (f : Fault), p.run w = .error f v →
    ∀ operator node, f.cause ≠ .unknownOperator operator node

theorem Node.WellFormed.operatorFits {n : Node} (h : n.WellFormed) : n.OperatorFits := by
  rcases n with s | r | e
  · trivial
  · trivial
  · cases e with
    | binary => exact h
    | _ => trivial

theorem Program.WellFormed.operatorsFit {p : Program} (h : p.WellFormed) : p.OperatorsFit :=
  fun n hn => (h n hn).operatorFits

variable {σ : Type} [Output σ]

/-- An unknown operator is on a node of the statement that it stops. -/
theorem Stopped.exists_misfit {ns : List Node} {w v : WorldOf σ} {f : Fault}
    (h : Stopped ns w v f) {operator node : String}
    (hf : f.cause = .unknownOperator operator node) : ∃ n ∈ ns, ¬ n.OperatorFits := by
  cases h with
  | evaluation _ hcause =>
    rw [hf] at hcause
    exact hcause
  | output _ _ _ hcause =>
    rw [hf] at hcause
    cases hcause

theorem Program.OperatorsFit.knowsOperators {p : Program} (h : p.OperatorsFit) :
    p.KnowsOperators σ := by
  intro w v f hrun operator node hf
  rcases p.exec_of_run hrun with ⟨u, hexec⟩ | ⟨_, _, _, -, -, rfl⟩
  · obtain ⟨s, x, hreaches, -, hstopped⟩ := Stmt.stopsIn_of_execAll p.stmts hexec
    obtain ⟨n, hn, hmisfit⟩ := hstopped.exists_misfit hf
    exact hmisfit (h n (hreaches.nodes_subset hn))
  · cases hf

/-- A program whose operators fit their nodes never stops for an unknown operator, and
the program of a source is one. -/
theorem knowsOperators_of_source :
    (∀ p : Program, p.OperatorsFit → p.KnowsOperators σ) ∧
    ∀ source p, compile source = .ok p → p.OperatorsFit ∧ p.KnowsOperators σ := by
  constructor
  · intro p h
    exact h.knowsOperators
  · intro source p h
    have hfit := (wellFormed_of_compile h).operatorsFit
    exact ⟨hfit, hfit.knowsOperators⟩

/-- A sum on the node of a comparison does stop a program. -/
example :
    let sum := Expr.binary .comparison .add (.number 1 default) (.number 2 default) default
    let p : Program := ⟨[.print sum default]⟩
    let w : World := ⟨.empty, .empty, .unlimited⟩
    p.run w = .error ⟨.unknownOperator "+" "comparison", some default⟩ w := rfl

/-- A source with an operator of each family, which stops because the values do not
fit. -/
theorem knowsOperators_of_mixed_source :
    let source := "print 1 + 1 max (2 < 3);"
    let w : World := ⟨.empty, .empty, .unlimited⟩
    ∃ p, compile source = .ok p ∧ p.OperatorsFit ∧ p.KnowsOperators Sink ∧
      ∃ f, p.run w = .error f w ∧
        f.cause = .unsupportedOperation "max" "int 1" "bool true" := by
  intro source w
  let comparison := Expr.binary .comparison .lt (.number 2 ⟨17, 18, 1⟩) (.number 3 ⟨21, 22, 1⟩)
    ⟨17, 22, 1⟩
  let extremum := Expr.binary .extremum .max (.number 1 ⟨10, 11, 1⟩) comparison ⟨10, 23, 1⟩
  let sum := Expr.binary .sum .add (.number 1 ⟨6, 7, 1⟩) extremum ⟨6, 23, 1⟩
  have hcompile : compile source = .ok ⟨[.print sum ⟨0, 24, 1⟩]⟩ := by cbv
  obtain ⟨hfit, -⟩ := (@knowsOperators_of_source Sink _).2 source _ hcompile
  exact ⟨_, hcompile, hfit, knowsOperators_of_source.1 _ hfit, _, by cbv, rfl⟩

end Scriptlet
