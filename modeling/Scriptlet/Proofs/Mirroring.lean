-- Two runs side by side. A tree with other stretches, run with an output that
-- takes every text alike, does the same and stops at the same fault, which is
-- then at the stretch that its node has there.
import Scriptlet.Proofs.Faults

namespace Scriptlet

/-! ## Faults elsewhere -/

def Fault.mapSpan (f : Span → Span) (e : Fault) : Fault := { e with span := e.span.map f }

theorem Fault.mapSpan_within (f : Span → Span) (s : Span) {e : Fault} (h : e.span = none) :
    (e.within s).mapSpan f = e.within (f s) := by
  simp [mapSpan, within, h]

namespace Eval

variable {α β : Type} (f : Span → Span)

/-- The evaluation with the places of its faults changed. -/
def mapSpans (step : Eval α) : Eval α := step.adaptExcept (Fault.mapSpan f)

theorem mapSpans_pure (a : α) : mapSpans f (pure a) = pure a := rfl

theorem mapSpans_bind (step : Eval α) (next : α → Eval β) :
    mapSpans f (step >>= next) = mapSpans f step >>= fun a => mapSpans f (next a) := by
  funext h
  simp only [mapSpans, EStateM.adaptExcept, Bind.bind, EStateM.bind]
  cases step h <;> rfl

theorem mapSpans_get : mapSpans f (get : Eval Heap) = get := rfl

theorem mapSpans_ofExcept (s : Span) {r : Except Fault α} (h : Unplaced r) :
    mapSpans f (ofExcept s r) = ofExcept (f s) r := by
  cases r with
  | ok a => rfl
  | error e =>
    funext heap
    have hwithin := Fault.mapSpan_within f s (h.span_eq_none e rfl)
    exact congrArg (EStateM.Result.error · heap) hwithin

theorem mapSpans_ofKind (expected : Kind) (view : Value → Option α) (s : Span) (v : Value) :
    mapSpans f (ofKind expected view s v) = ofKind expected view (f s) v := by
  unfold ofKind
  cases view v <;> rfl

theorem mapSpans_listNamed (env : Environment) (name : String) (s : Span) :
    mapSpans f (listNamed env name s) = listNamed env name (f s) := by
  unfold listNamed
  rw [mapSpans_bind, mapSpans_ofExcept f s (env.unplaced_read name)]
  simp only [mapSpans_ofKind]

theorem mapSpans_ofHeap (s : Span) {r : Heap → Except Fault α} (h : ∀ x, Unplaced (r x)) :
    mapSpans f (do ofExcept s (r (← get))) = (do ofExcept (f s) (r (← get)) : Eval α) := by
  rw [mapSpans_bind, mapSpans_get]
  simp only [mapSpans_ofExcept f s (h _)]

end Eval

/-! ## Expressions -/

mutual

theorem Expr.eval_mapSpans (f : Span → Span) (env : Environment) :
    (e : Expr) → (e.mapSpans f).eval env = (e.eval env).mapSpans f
  | .number .. | .str .. => by
    simp only [mapSpans, Expr.eval, Eval.mapSpans_pure]
  | .ident name s => by
    simp only [mapSpans, Expr.eval]
    rw [Eval.mapSpans_ofExcept f s (env.unplaced_read name)]
  | .list items s => by
    simp only [mapSpans, Expr.eval]
    rw [Eval.mapSpans_bind, Expr.evalAll_mapSpans f env items]
    rfl
  | .index name position s => by
    simp only [mapSpans, Expr.eval]
    rw [Expr.eval_mapSpans f env position]
    simp only [Eval.mapSpans_bind, Eval.mapSpans_listNamed, Eval.integer, Eval.mapSpans_ofKind,
      Eval.mapSpans_get, span_mapSpans, Eval.mapSpans_ofExcept f s (Heap.unplaced_item ..)]
  | .binary family op lhs rhs s => by
    simp only [mapSpans, Expr.eval]
    rw [Expr.eval_mapSpans f env lhs, Expr.eval_mapSpans f env rhs]
    split
    · simp only [Eval.mapSpans_bind, Eval.mapSpans_get,
        Eval.mapSpans_ofExcept f s (op.unplaced_apply ..)]
    · rfl

theorem Expr.evalAll_mapSpans (f : Span → Span) (env : Environment) : (es : List Expr) →
    Expr.evalAll env (Expr.mapAllSpans f es) = (Expr.evalAll env es).mapSpans f
  | [] => by
    simp only [mapAllSpans, Expr.evalAll, Eval.mapSpans_pure]
  | e :: es => by
    simp only [mapAllSpans, Expr.evalAll]
    rw [Expr.eval_mapSpans f env e, Expr.evalAll_mapSpans f env es]
    simp only [Eval.mapSpans_bind, Eval.mapSpans_pure]

end

theorem Expr.evalInteger_mapSpans (f : Span → Span) (env : Environment) (e : Expr) :
    (e.mapSpans f).evalInteger env = (e.evalInteger env).mapSpans f := by
  unfold evalInteger Eval.integer
  rw [eval_mapSpans, Eval.mapSpans_bind]
  simp only [span_mapSpans, Eval.mapSpans_ofKind]

theorem Expr.evalBoolean_mapSpans (f : Span → Span) (env : Environment) (e : Expr) :
    (e.mapSpans f).evalBoolean env = (e.evalBoolean env).mapSpans f := by
  unfold evalBoolean Eval.boolean
  rw [eval_mapSpans, Eval.mapSpans_bind]
  simp only [span_mapSpans, Eval.mapSpans_ofKind]

/-! ## Worlds -/

variable {σ τ : Type}

/-- Two outputs in related states take every text alike: they stay related, and
one of them fails if and only if the other does, for the same reason. -/
structure WritesAlike [Output σ] [Output τ] (R : σ → τ → Prop) : Prop where
  write : ∀ a b text, R a b → R (Output.write a text).1 (Output.write b text).1 ∧
    (Output.write a text).2 = (Output.write b text).2

/-- Worlds that differ in nothing but their outputs, which are related. -/
structure Mirrored (R : σ → τ → Prop) (w : WorldOf σ) (v : WorldOf τ) : Prop where
  env : w.env = v.env
  heap : w.heap = v.heap
  sink : R w.sink v.sink

/-- Outcomes that are alike but for the place of a fault. -/
inductive SameOutcome {α : Type} (f : Span → Span) (R : σ → τ → Prop) :
    EStateM.Result Fault (WorldOf σ) α → EStateM.Result Fault (WorldOf τ) α → Prop
  | ok {a w v} : Mirrored R w v → SameOutcome f R (.ok a w) (.ok a v)
  | error {e w v} : Mirrored R w v → SameOutcome f R (.error e w) (.error (e.mapSpan f) v)

/-- A step that does the same as another one from every mirrored world. -/
structure Mirrors {α : Type} (f : Span → Span) (R : σ → τ → Prop) (step : Exec σ α)
    (other : Exec τ α) : Prop where
  outcome : ∀ w v, Mirrored R w v → SameOutcome f R (step w) (other v)

namespace Mirrors

variable {α β : Type} {f : Span → Span} {R : σ → τ → Prop}

theorem pure (a : α) : Mirrors f R (Pure.pure a : Exec σ α) (Pure.pure a : Exec τ α) :=
  ⟨fun _ _ h => .ok h⟩

theorem bind {step : Exec σ α} {other : Exec τ α} {next : α → Exec σ β} {after : α → Exec τ β}
    (h : Mirrors f R step other) (hnext : ∀ a, Mirrors f R (next a) (after a)) :
    Mirrors f R (step >>= next) (other >>= after) := by
  refine ⟨fun w v hw => ?_⟩
  have hout := h.outcome w v hw
  simp only [Bind.bind, EStateM.bind]
  generalize step w = a at hout
  generalize other v = b at hout
  cases hout with
  | ok hw' => exact (hnext _).outcome _ _ hw'
  | error hw' => exact .error hw'

theorem map {step : Exec σ α} {other : Exec τ α} (h : Mirrors f R step other) (g : α → β) :
    Mirrors f R (g <$> step) (g <$> other) := h.bind fun _ => pure _

/-- An evaluation sees no output. -/
theorem evaluate {step other : Environment → Eval α}
    (h : ∀ env, other env = (step env).mapSpans f) :
    Mirrors f R (Exec.evaluate step : Exec σ α) (Exec.evaluate other) := by
  refine ⟨fun w v hw => ?_⟩
  obtain ⟨env, heap, a⟩ := w
  obtain ⟨_, _, b⟩ := v
  obtain ⟨rfl, rfl, hsink⟩ := hw
  simp only [Exec.evaluate, h, Eval.mapSpans, EStateM.adaptExcept]
  cases step env heap with
  | ok r heap' => exact .ok ⟨rfl, rfl, hsink⟩
  | error e heap' => exact .error ⟨rfl, rfl, hsink⟩

theorem assign (name : String) (x : Value) :
    Mirrors f R (Exec.assign name x : Exec σ Unit) (Exec.assign name x) :=
  ⟨fun _ _ hw => .ok ⟨congrArg (·.write name x) hw.env, hw.heap, hw.sink⟩⟩

theorem setItem (r : ListRef) (i : Nat) (x : Value) :
    Mirrors f R (Exec.setItem r i x : Exec σ Unit) (Exec.setItem r i x) :=
  ⟨fun _ _ hw => .ok ⟨hw.env, congrArg (·.set r i x) hw.heap, hw.sink⟩⟩

theorem unbind (name : String) :
    Mirrors f R (Exec.unbind name : Exec σ (Option Value)) (Exec.unbind name) := by
  refine ⟨fun w v hw => ?_⟩
  obtain ⟨env, heap, a⟩ := w
  obtain ⟨_, _, b⟩ := v
  obtain ⟨rfl, rfl, hsink⟩ := hw
  exact .ok ⟨rfl, rfl, hsink⟩

/-- A step that looks at the world first. -/
theorem bind_get {next : WorldOf σ → Exec σ α} {after : WorldOf τ → Exec τ α}
    (h : ∀ w v, Mirrored R w v → Mirrors f R (next w) (after v)) :
    Mirrors f R (get >>= next) (get >>= after) :=
  ⟨fun w v hw => (h w v hw).outcome w v hw⟩

theorem iterate {body : Exec σ (Option Value)} {body' : Exec τ (Option Value)}
    (h : Mirrors f R body body') (var : String) (stride : Int) (n : Nat) (i : Int) :
    Mirrors f R (Exec.iterate var body stride n i) (Exec.iterate var body' stride n i) := by
  induction n generalizing i with
  | zero => exact pure ()
  | succ n ih => exact (assign _ _).bind fun _ => h.bind fun _ => ih _

theorem forRange {body : Exec σ (Option Value)} {body' : Exec τ (Option Value)}
    (h : Mirrors f R body body') (var : String) (lo hi : Int64) :
    Mirrors f R (Exec.forRange var lo hi body) (Exec.forRange var lo hi body') :=
  (iterate h ..).bind fun _ => unbind var

variable [Output σ] [Output τ]

theorem output (hR : WritesAlike R) (s : Span) (text : String) :
    Mirrors f R (Exec.output s text : Exec σ Unit) (Exec.output (f s) text) := by
  refine ⟨fun w v hw => ?_⟩
  obtain ⟨hsink, hmessage⟩ := hR.write w.sink v.sink text hw.sink
  unfold Exec.output
  rcases ha : Output.write w.sink text with ⟨a, m⟩
  rcases hb : Output.write v.sink text with ⟨b, n⟩
  rw [ha, hb] at hsink hmessage
  cases hmessage
  cases m with
  | none => exact .ok ⟨hw.env, hw.heap, hsink⟩
  | some message => exact .error (e := ⟨.io message, some s⟩) ⟨hw.env, hw.heap, hsink⟩

theorem printValue (hR : WritesAlike R) (e : Expr) (ending : String) :
    Mirrors f R (Exec.printValue e ending : Exec σ Value)
      (Exec.printValue (e.mapSpans f) ending) := by
  refine (evaluate fun env => e.eval_mapSpans f env).bind fun x => ?_
  refine bind_get fun w v hw => ?_
  rw [Expr.span_mapSpans, hw.heap]
  exact (output hR e.span _).bind fun _ => pure x

end Mirrors

/-! ## Statements -/

variable [Output σ] [Output τ]

mutual

theorem Stmt.mirrors_exec {f : Span → Span} {R : σ → τ → Prop} (hR : WritesAlike R) :
    (s : Stmt) → Mirrors f R (s.exec : Exec σ (Option Value)) (s.mapSpans f).exec
  | .assign name e s => by
    unfold mapSpans Stmt.exec
    refine (Mirrors.evaluate fun env => e.eval_mapSpans f env).bind fun x => ?_
    exact (Mirrors.assign ..).bind fun _ => .pure _
  | .indexAssign name position e s => by
    unfold mapSpans Stmt.exec
    refine (Mirrors.evaluate fun env => position.evalInteger_mapSpans f env).bind fun i => ?_
    refine (Mirrors.evaluate fun env =>
      (Eval.mapSpans_listNamed f env name s).symm).bind fun r => ?_
    refine (Mirrors.evaluate fun env => e.eval_mapSpans f env).bind fun x => ?_
    refine (Mirrors.evaluate fun _ =>
      (Eval.mapSpans_ofHeap f s fun h => h.unplaced_position r i).symm).bind fun i => ?_
    exact (Mirrors.setItem ..).bind fun _ => .pure _
  | .print e s | .printLine e s => by
    unfold mapSpans Stmt.exec
    exact (Mirrors.printValue hR e _).map some
  | .loop var range body s => by
    unfold mapSpans Stmt.exec
    refine (Mirrors.evaluate fun env => range.lo.evalInteger_mapSpans f env).bind fun lo => ?_
    refine (Mirrors.evaluate fun env => range.hi.evalInteger_mapSpans f env).bind fun hi => ?_
    exact Mirrors.forRange (Stmt.mirrors_execAll hR none body) ..
  | .branch cond thenBody none s => by
    unfold mapSpans Stmt.exec
    refine (Mirrors.evaluate fun env => cond.evalBoolean_mapSpans f env).bind fun taken => ?_
    split
    · exact Stmt.mirrors_execAll hR none thenBody
    · exact .pure _
  | .branch cond thenBody (some elseBody) s => by
    unfold mapSpans Stmt.exec
    refine (Mirrors.evaluate fun env => cond.evalBoolean_mapSpans f env).bind fun taken => ?_
    split
    · exact Stmt.mirrors_execAll hR none thenBody
    · exact Stmt.mirrors_execAll hR none elseBody

theorem Stmt.mirrors_execAll {f : Span → Span} {R : σ → τ → Prop} (hR : WritesAlike R)
    (last : Option Value) : (ss : List Stmt) →
    Mirrors f R (Stmt.execAll last ss : Exec σ (Option Value))
      (Stmt.execAll last (Stmt.mapAllSpans f ss))
  | [] => by
    unfold mapAllSpans Stmt.execAll
    exact .pure _
  | s :: ss => by
    unfold mapAllSpans Stmt.execAll
    exact (Stmt.mirrors_exec hR s).bind fun last => Stmt.mirrors_execAll hR last ss

end

end Scriptlet
