-- What a run keeps of values. If evaluation keeps a property of values and index
-- assignments do, then every name is bound to a value that has it, all through the run.
-- The run prints values that have it, and a fault that stops it tells of such values.
import Scriptlet.Proofs.Printing
import Scriptlet.Proofs.ValueInvariants

namespace Scriptlet

variable {σ : Type} {C : Heap → Prop} {V : Heap → Value → Prop}

/-- Whether the heap has `C`, and every value that a name is bound to has `V` in it. -/
structure WorldOf.Has (C : Heap → Prop) (V : Heap → Value → Prop) (w : WorldOf σ) : Prop where
  heap : C w.heap
  env : w.env.Each (V w.heap)

/-- How a step ends that starts in the world `w`: in one that has the properties, and if it
stops, then with a fault that tells of values with `V`. -/
structure Exec.Keeps {α : Type} (C : Heap → Prop) (V : Heap → Value → Prop) (w : WorldOf σ)
    (step : Exec σ α) : Prop where
  after : (worldAfter step w).Has C V
  error : ∀ f v, step w = .error f v → f.cause.Describes v.heap (V v.heap)

/-! ## Steps -/

namespace Exec.Keeps

variable {α β : Type} {w v : WorldOf σ} {step : Exec σ α} {next : α → Exec σ β}

theorem of_ok {a : α} (hstep : step w = .ok a v) (hv : v.Has C V) : Keeps C V w step := by
  refine ⟨(worldAfter_of_ok hstep).symm ▸ hv, fun f u hf => ?_⟩
  cases hstep.symm.trans hf

theorem bind (hstep : Keeps C V w step)
    (hnext : ∀ a v, step w = .ok a v → v.Has C V → Keeps C V v (next a)) :
    Keeps C V w (step >>= next) := by
  refine ⟨worldAfter_bind hstep.after fun a v ha hv => (hnext a v ha hv).after, fun f u hf => ?_⟩
  rcases bind_eq_error_iff.1 hf with hf | ⟨a, v, ha, hf⟩
  · exact hstep.error f u hf
  · have hv := hstep.after
    rw [worldAfter_of_ok ha] at hv
    exact (hnext a v ha hv).error f u hf

theorem map (hstep : Keeps C V w step) (g : α → β) : Keeps C V w (g <$> step) := by
  rw [← bind_pure_comp]
  exact hstep.bind fun a v _ hv => of_ok rfl hv

/-- Evaluation leaves a heap that has grown, in which the names are bound as before. -/
theorem evaluate (hI : ValueInvariant C V) (hw : w.Has C V) {post : α → Heap → Prop}
    {step : Environment → Eval α} (hstep : Eval.Keeps C V w.heap post (step w.env)) :
    Keeps C V w (Exec.evaluate step) := by
  refine ⟨?_, fun f v hf => ?_⟩
  · unfold worldAfter Exec.evaluate
    cases hend : step w.env w.heap with
    | ok a h =>
      obtain ⟨hgrows, hc, -⟩ := hstep.ok a h hend
      exact ⟨hc, hw.env.mono fun _ => hI.mono hgrows⟩
    | error f h =>
      obtain ⟨hgrows, hc, -⟩ := hstep.error f h hend
      exact ⟨hc, hw.env.mono fun _ => hI.mono hgrows⟩
  · obtain ⟨h, hend, rfl⟩ := evaluate_eq_error_iff.1 hf
    exact (hstep.error f h hend).2.2

theorem evaluate_bind (hI : ValueInvariant C V) (hw : w.Has C V) {post : α → Heap → Prop}
    {step : Environment → Eval α} (hstep : Eval.Keeps C V w.heap post (step w.env))
    (hnext : ∀ a h, w.heap.Grows h → post a h → { w with heap := h }.Has C V →
      Keeps C V { w with heap := h } (next a)) :
    Keeps C V w (Exec.evaluate step >>= next) := by
  refine (evaluate hI hw hstep).bind fun a v hv hhas => ?_
  obtain ⟨h, hend, rfl⟩ := evaluate_eq_ok_iff.1 hv
  obtain ⟨hgrows, -, hpost⟩ := hstep.ok a h hend
  exact hnext a h hgrows hpost hhas

variable [Output σ]

theorem output (hw : w.Has C V) (s : Span) (text : String) :
    Keeps C V w (Exec.output s text) := by
  constructor
  · rw [worldAfter_output]
    exact ⟨hw.heap, hw.env⟩
  · intro f v hf
    obtain ⟨message, -, rfl, -⟩ := output_eq_error_iff.1 hf
    trivial

theorem printValue (hI : ValueInvariant C V) (hw : w.Has C V) (e : Expr) (ending : String) :
    Keeps C V w (Exec.printValue e ending) := by
  unfold Exec.printValue
  refine evaluate_bind hI hw (e.keeps_eval hI hw.heap hw.env) fun x h _ _ hw => ?_
  refine (of_ok rfl hw : Keeps C V _ get).bind fun u v _ hv => ?_
  exact (output hv e.span _).bind fun _ _ _ hv => of_ok rfl hv

end Exec.Keeps

/-! ## Statements -/

variable [Output σ]

/-- Whether the index assignments that a run of `ss` from `w` comes to keep the
properties. -/
def KeepsStores (C : Heap → Prop) (V : Heap → Value → Prop) (ss : List Stmt)
    (w : WorldOf σ) : Prop :=
  ∀ name position e span u, Reaches ss w (.indexAssign name position e span) u → u.Has C V →
    Exec.Keeps C V u (Stmt.indexAssign name position e span).exec

namespace ValueInvariant

variable {ss : List Stmt} {s : Stmt} {w u v : WorldOf σ} {f : Fault}

theorem keeps_simple (hI : ValueInvariant C V) (hstores : KeepsStores C V ss w)
    (hreaches : Reaches ss w s u) (hs : s.Simple) (hu : u.Has C V) :
    Exec.Keeps C V u s.exec := by
  cases s with
  | assign name e s =>
    unfold Stmt.exec
    refine .evaluate_bind hI hu (e.keeps_eval hI hu.heap hu.env) fun x h _ hx hu => ?_
    exact .of_ok rfl ⟨hu.heap, hu.env.write hx name⟩
  | indexAssign name position e s => exact hstores name position e s u hreaches hu
  | print e s =>
    rw [Stmt.exec_of_printed rfl]
    exact (Exec.Keeps.printValue hI hu e _).map some
  | printLine e s =>
    rw [Stmt.exec_of_printed rfl]
    exact (Exec.Keeps.printValue hI hu e _).map some
  | loop => exact hs.elim
  | branch => exact hs.elim

theorem kept (hI : ValueInvariant C V) (hstores : KeepsStores C V ss w) :
    Kept (WorldOf.Has C V) ss w where
  value e _ hu := (Exec.Keeps.evaluate hI hu (e.keeps_eval hI hu.heap hu.env)).after
  simple _ _ hreaches hs hu := (hI.keeps_simple hstores hreaches hs hu).after
  turn _ _ _ _ _ _ _ _ hv := ⟨hv.heap, hv.env.write (hI.scalar rfl) _⟩
  unbind _ _ _ _ _ _ _ hv := ⟨hv.heap, hv.env.remove _⟩

/-- What a run prints are texts of values with `V`. -/
theorem of_prints (hI : ValueInvariant C V) {p : Program} (hstores : KeepsStores C V p.stmts w)
    (hw : w.Has C V) {h : Heap} {x : Value} {ending : String} (hx : p.Prints w h x ending) :
    V h x := by
  obtain ⟨s, u, e, hreaches, -, heval⟩ := hx
  have hu := (hI.kept hstores).reached hreaches hw
  exact ((e.keeps_eval hI hu.heap hu.env).ok x h heval).2.2

/-- A fault of a statement itself tells of values with `V` in the heap that it leaves. -/
theorem describes_of_stopsItself (hI : ValueInvariant C V) (hstores : KeepsStores C V ss w)
    (hreaches : Reaches ss w s u) (hu : u.Has C V) (h : StopsItself f v s u) :
    f.cause.Describes v.heap (V v.heap) := by
  cases h with
  | simple hs h => exact (hI.keeps_simple hstores hreaches hs hu).error f v h
  | @low var range body span _ h =>
    have hlow := range.lo.keeps_evalInteger hI hu.heap hu.env
    exact (Exec.Keeps.evaluate hI hu hlow).error f v h
  | @high var range body span _ u₁ lo hlo h =>
    have hlow := range.lo.keeps_evalInteger hI hu.heap hu.env
    have hu₁ : u₁.Has C V := Exec.worldAfter_of_ok hlo ▸ (Exec.Keeps.evaluate hI hu hlow).after
    have hhigh := range.hi.keeps_evalInteger hI hu₁.heap hu₁.env
    exact (Exec.Keeps.evaluate hI hu₁ hhigh).error f v h
  | @condition cond thenBody elseBody span _ h =>
    have hcond := cond.keeps_evalBoolean hI hu.heap hu.env
    exact (Exec.Keeps.evaluate hI hu hcond).error f v h

/-- A fault that stops a run tells of values with `V` in the heap that it leaves. -/
theorem describes_of_run (hI : ValueInvariant C V) {p : Program}
    (hstores : KeepsStores C V p.stmts w) (hw : w.Has C V) (h : p.run w = .error f v) :
    f.cause.Describes v.heap (V v.heap) := by
  rcases p.exec_of_run h with ⟨w₁, hexec⟩ | ⟨_, _, message, -, -, rfl⟩
  · cases (Program.run_of_error hexec).symm.trans h
    obtain ⟨s, u, hreaches, -, hstops⟩ := Stmt.exists_stopsItself_of_execAll p.stmts hexec
    have hu := (hI.kept hstores).reached hreaches hw
    have hcause := hI.describes_of_stopsItself hstores hreaches hu hstops
    exact hcause
  · trivial

end ValueInvariant

end Scriptlet
