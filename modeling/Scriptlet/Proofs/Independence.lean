-- Bindings that a program does not mention. They are there before and after its run, and
-- do not interfere with it: all that they can show in is the name that a fault
-- suggests for one that is not bound.
import Scriptlet.Proofs.Bindings
import Scriptlet.Proofs.Coupling
import Scriptlet.Proofs.Outputs

namespace Scriptlet

/-! ## Further bindings -/

namespace Environment

/-- The environment with the bindings of another one, in place of any older ones. -/
def plus (env more : Environment) : Environment :=
  more.bindings.foldr (fun b env => env.write b.1 b.2) env

theorem get?_plus (env more : Environment) (name : String) :
    (env.plus more).get? name = (more.get? name).or (env.get? name) := by
  obtain ⟨bs, hbs⟩ := more
  unfold plus
  simp only [get?.eq_def ⟨bs, hbs⟩]
  clear hbs
  induction bs with
  | nil => rfl
  | cons b bs ih =>
    rw [List.foldr_cons, get?_write, ih, lookup_cons]
    split <;> rfl

variable {env more : Environment} {name : String}

theorem get?_plus_of_none (h : more.get? name = none) :
    (env.plus more).get? name = env.get? name := by
  rw [get?_plus, h, Option.none_or]

/-- Binding another name and adding bindings may change places. -/
theorem plus_write (h : more.get? name = none) (v : Value) :
    (env.write name v).plus more = (env.plus more).write name v := by
  refine ext_get? fun other => ?_
  simp only [get?_plus, get?_write]
  split
  · next hname => rw [hname, h, Option.none_or]
  · rfl

theorem plus_remove (h : more.get? name = none) :
    (env.remove name).plus more = (env.plus more).remove name := by
  refine ext_get? fun other => ?_
  simp only [get?_plus, get?_remove]
  split
  · next hname => rw [hname, h, Option.none_or]
  · rfl

end Environment

/-! ## Two runs -/

variable {σ : Type}

/-- The world with further bindings. -/
def WorldOf.plus (w : WorldOf σ) (more : Environment) : WorldOf σ :=
  { w with env := w.env.plus more }

/-- A run goes together with one that has further bindings, up to the names that faults
suggest. -/
def Environment.coupling (more : Environment) : Coupling σ where
  Worlds w v := v = w.plus more
  Faults f g := f.withoutHint = g.withoutHint
  Breaks _ := False

variable [Output σ]

theorem Environment.laws_coupling (more : Environment) :
    (more.coupling : Coupling σ).Laws fun name => more.get? name = none where
  heap := by
    rintro w _ rfl
    rfl
  evaluate := by
    intro α step hreads
    refine ⟨?_⟩
    rintro w _ rfl
    have hsame := hreads w.env (w.env.plus more) fun name hname => (get?_plus_of_none hname).symm
    unfold Exec.evaluate
    simp only [WorldOf.plus]
    rcases Eval.ok_or_error_of_withoutHints hsame w.heap with
      ⟨a, heap, hstep, hother⟩ | ⟨f, g, heap, hstep, hother, hfault⟩
    · rw [hstep, hother]
      exact .ok rfl
    · rw [hstep, hother]
      exact .error rfl hfault
  assign name x hname := by
    refine ⟨?_⟩
    rintro w _ rfl
    exact .ok (congrArg (WorldOf.mk · w.heap w.sink) (plus_write hname x).symm)
  unbind name hname := by
    refine ⟨?_⟩
    rintro w _ rfl
    change Coupling.Outcomes _ (.ok (w.env.get? name) { w with env := w.env.remove name })
      (.ok ((w.env.plus more).get? name) { w with env := (w.env.plus more).remove name })
    rw [get?_plus_of_none hname, ← plus_remove hname]
    exact .ok rfl
  setItem r i x := by
    refine ⟨?_⟩
    rintro w _ rfl
    exact .ok rfl
  output s text := by
    refine ⟨?_⟩
    rintro w _ rfl
    unfold Exec.output
    simp only [WorldOf.plus]
    rcases Output.write w.sink text with ⟨sink, _ | message⟩
    · exact .ok rfl
    · exact .error rfl rfl

/-! ## Runs -/

/-- Whether two faults are the same, or both of them of a name that is not bound, and then
with what may be different suggestions in their messages. -/
def Fault.SameButHint (f g : Fault) : Prop :=
  f = g ∨ ∃ name hint hint', f = ⟨.undeclaredVariable name hint, f.span⟩ ∧
    g = ⟨.undeclaredVariable name hint', f.span⟩ ∧
    f.message = s!"undeclared variable: {name}" ++ Suggestion.hint hint ∧
    g.message = s!"undeclared variable: {name}" ++ Suggestion.hint hint'

theorem Fault.sameButHint_of_withoutHint {f g : Fault} (h : f.withoutHint = g.withoutHint) :
    f.SameButHint g := by
  obtain ⟨cause, span⟩ := f
  obtain ⟨cause', span'⟩ := g
  obtain ⟨hcause, rfl⟩ := Fault.mk.inj h
  cases cause <;> cases cause' <;> cases hcause
  case undeclaredVariable.undeclaredVariable =>
    exact .inr ⟨_, _, _, rfl, rfl, rfl, rfl⟩
  all_goals exact .inl rfl

/-- Flushing sees no bindings. -/
theorem Program.couples_run (p : Program) (more : Environment)
    (hmore : ∀ name, p.Mentions name → more.get? name = none) :
    (more.coupling : Coupling σ).Couples p.run := by
  refine ⟨?_⟩
  rintro w _ rfl
  have hout := (Stmt.couples_execAll more.laws_coupling none p.stmts
    (p.namedIn_nodes hmore)).outcomes w (w.plus more) rfl
  unfold run
  generalize Stmt.execAll none p.stmts w = outcome at hout
  generalize Stmt.execAll none p.stmts (w.plus more) = other at hout
  cases hout with
  | @ok result v _ hv =>
    subst hv
    simp only [Bind.bind, EStateM.bind, Exec.flush, WorldOf.plus]
    rcases Output.flush v.sink with ⟨sink, _ | message⟩
    · exact .ok rfl
    · exact .error rfl rfl
  | error hv hf =>
    subst hv
    exact .error rfl hf
  | broken hbreaks => exact hbreaks.elim

/-- Bindings that a program does not mention do not interfere with its run. From two worlds
of which one has these bindings further, the runs have the same result and leave the same
lists and the same output, or stop at the same node for the same reason: their faults
differ in nothing but the name that they suggest for one that is not bound. The
bindings are there at the end as they were. -/
theorem run_plus (p : Program) (w : WorldOf σ) (more : Environment)
    (hmore : ∀ name, p.Mentions name → more.get? name = none) :
    match p.run w, p.run (w.plus more) with
    | .ok result v, .ok result' v' => result' = result ∧ v' = v.plus more
    | .error f v, .error f' v' => f.SameButHint f' ∧ v' = v.plus more
    | _, _ => False := by
  have hout := (p.couples_run more hmore).outcomes w (w.plus more) rfl
  generalize p.run w = outcome at hout
  generalize p.run (w.plus more) = other at hout
  cases hout with
  | ok hv => exact ⟨rfl, hv⟩
  | error hv hf => exact ⟨Fault.sameButHint_of_withoutHint hf, hv⟩
  | broken hbreaks => exact hbreaks.elim

/-- A name that is misspelt, in an environment with one other name and in one that has
further the name that was meant: the suggestion is all that shows the latter. -/
theorem run_plus_misspelt :
    let span : Span := ⟨0, 0, 1⟩
    let p := Program.mk [.assign "n" (.number 1 span) span, .print (.ident "valu" span) span]
    let w : World := ⟨.empty, ⟨#[]⟩, .unlimited⟩
    let more := Environment.empty.write "value" (.int 7)
    (∀ name, p.Mentions name → more.get? name = none) ∧
      ∃ v, p.run w = .error ⟨.undeclaredVariable "valu" none, some span⟩ v ∧
        p.run (w.plus more) =
          .error ⟨.undeclaredVariable "valu" (some "value"), some span⟩ (v.plus more) := by
  intro span p w more
  have hmore : ∀ name, p.Mentions name → more.get? name = none := by
    rintro name ⟨n, hn, hname⟩
    have hne : name ≠ "value" := by
      simp only [p, Program.nodes, Stmt.allNodes, Stmt.nodes, Expr.nodes, List.append_nil,
        List.cons_append, List.nil_append, List.mem_cons, List.not_mem_nil, or_false] at hn
      rcases hn with rfl | rfl | rfl | rfl <;> cases hname <;> decide
    rw [Environment.get?_write_ne _ hne]
    rfl
  have hplus := run_plus p w more hmore
  obtain ⟨v, hrun⟩ : ∃ v, p.run w = .error ⟨.undeclaredVariable "valu" none, some span⟩ v :=
    ⟨_, rfl⟩
  obtain ⟨v', hrun'⟩ : ∃ v', p.run (w.plus more) =
      .error ⟨.undeclaredVariable "valu" (some "value"), some span⟩ v' := ⟨_, rfl⟩
  rw [hrun, hrun'] at hplus
  obtain ⟨-, rfl⟩ := hplus
  exact ⟨hmore, v, hrun, hrun'⟩

end Scriptlet
