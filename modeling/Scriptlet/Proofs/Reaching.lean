-- Where a run stops. A fault arises in one statement that the run has come to, at
-- any depth: in an expression of it, in an index out of bounds or in a text that the
-- output does not take. That statement has not changed anything by then, so the
-- world is left as it was when the statement started.
import Scriptlet.Proofs.Purity

namespace Scriptlet

variable {σ : Type}

/-! ## Worlds after a fault -/

/-- The same bindings and output, and each list that was there with its items. -/
structure Untouched (w v : WorldOf σ) : Prop where
  env : v.env = w.env
  sink : v.sink = w.sink
  heap : w.heap.Grows v.heap

theorem Untouched.trans {w v u : WorldOf σ} (a : Untouched w v) (b : Untouched v u) :
    Untouched w u :=
  ⟨b.env.trans a.env, b.sink.trans a.sink, a.heap.trans b.heap⟩

/-- How a statement with these nodes stops that has not changed anything: for a cause
in one of its expressions or in an index, or at a text that is not taken. -/
inductive Stopped [Output σ] (ns : List Node) (w v : WorldOf σ) (f : Fault) : Prop
  | evaluation : Untouched w v → f.cause.ArisesIn ns → Stopped ns w v f
  | output {text message} : v.env = w.env → w.heap.Grows v.heap →
    Output.write w.sink text = (v.sink, some message) → f.cause = .io message →
    Stopped ns w v f

variable [Output σ]

theorem Stopped.after {ns : List Node} {w u v : WorldOf σ} {f : Fault} (h : Stopped ns u v f)
    (hu : Untouched w u) : Stopped ns w v f := by
  cases h with
  | evaluation huv hcause => exact .evaluation (hu.trans huv) hcause
  | output henv hheap hwrite hcause =>
    rw [hu.sink] at hwrite
    exact .output (henv.trans hu.env) (hu.heap.trans hheap) hwrite hcause

/-! ## Evaluation in a world -/

namespace Exec

variable {α : Type} {ns : List Node} {step : Environment → Eval α}

omit [Output σ] in
theorem untouched_of_evaluate (h : ∀ env, Eval.Pure ns (step env)) {w v : WorldOf σ} {a : α}
    (hstep : evaluate step w = .ok a v) : Untouched w v := by
  unfold evaluate at hstep
  split at hstep
  · next b heap hok =>
    cases hstep
    exact ⟨rfl, rfl, (h _).ok _ _ _ hok⟩
  · cases hstep

omit [Output σ] in
theorem untouched_of_evaluate_error (h : ∀ env, Eval.Pure ns (step env)) {w v : WorldOf σ}
    {f : Fault} (hstep : evaluate step w = .error f v) :
    Untouched w v ∧ f.cause.ArisesIn ns := by
  unfold evaluate at hstep
  split at hstep
  · cases hstep
  · next f' heap herror =>
    cases hstep
    obtain ⟨hgrows, hcause⟩ := (h _).error _ _ _ herror
    exact ⟨⟨rfl, rfl, hgrows⟩, hcause⟩

theorem stopped_of_evaluate (h : ∀ env, Eval.Pure ns (step env)) {w v : WorldOf σ} {f : Fault}
    (hstep : evaluate step w = .error f v) : Stopped ns w v f := by
  obtain ⟨huntouched, hcause⟩ := untouched_of_evaluate_error h hstep
  exact .evaluation huntouched hcause

end Exec

/-! ## Simple statements -/

/-- A step that has not changed anything when it stops. -/
structure Atomic {α : Type} (ns : List Node) (step : Exec σ α) : Prop where
  stopped : ∀ w f v, step w = .error f v → Stopped ns w v f

namespace Atomic

variable {α β : Type} {ns : List Node}

theorem of_never {step : Exec σ α} (h : ∀ w, ∃ a v, step w = .ok a v) : Atomic ns step := by
  refine ⟨fun w f v hf => ?_⟩
  obtain ⟨a, u, hok⟩ := h w
  rw [hok] at hf
  cases hf

theorem evaluate_bind {step : Environment → Eval α} {next : α → Exec σ β}
    (h : ∀ env, Eval.Pure ns (step env)) (hnext : ∀ a, Atomic ns (next a)) :
    Atomic ns (Exec.evaluate step >>= next) := by
  refine ⟨fun w f v hf => ?_⟩
  rcases bind_eq_error_iff.1 hf with hstep | ⟨a, u, hstep, hafter⟩
  · exact Exec.stopped_of_evaluate h hstep
  · exact ((hnext a).stopped u f v hafter).after (Exec.untouched_of_evaluate h hstep)

theorem map {step : Exec σ α} (h : Atomic ns step) (g : α → β) : Atomic ns (g <$> step) := by
  refine ⟨fun w f v hf => ?_⟩
  rcases bind_eq_error_iff.1 hf with hstep | ⟨a, u, -, hafter⟩
  · exact h.stopped w f v hstep
  · cases hafter

theorem output (s : Span) (text : String) : Atomic ns (Exec.output s text : Exec σ Unit) := by
  refine ⟨fun w f v hf => ?_⟩
  unfold Exec.output at hf
  rcases hwrite : Output.write w.sink text with ⟨sink, _ | message⟩
  · rw [hwrite] at hf
    cases hf
  · rw [hwrite] at hf
    cases hf
    exact .output rfl (.refl _) hwrite rfl

theorem printValue {e : Expr} (h : e.nodes ⊆ ns) (ending : String) :
    Atomic ns (Exec.printValue e ending : Exec σ Value) := by
  refine evaluate_bind (fun env => (e.pure_eval env).mono h) fun x => ⟨fun w f v hf => ?_⟩
  rcases bind_eq_error_iff.1 hf with hget | ⟨_, _, hget, hf⟩
  · cases hget
  · cases hget
    rcases bind_eq_error_iff.1 hf with houtput | ⟨_, _, -, hpure⟩
    · exact (output ..).stopped _ _ _ houtput
    · cases hpure

end Atomic

/-- The statements without bodies. -/
def Stmt.Simple : Stmt → Prop
  | assign .. | indexAssign .. | print .. | printLine .. => True
  | loop .. | branch .. => False

theorem Stmt.atomic_exec {s : Stmt} (h : s.Simple) :
    Atomic s.nodes (s.exec : Exec σ (Option Value)) := by
  cases s with
  | assign name e s =>
    unfold Stmt.exec
    refine .evaluate_bind (fun env => (e.pure_eval env).mono (List.subset_cons_self _ _)) fun x => ?_
    exact .of_never fun w => ⟨_, _, rfl⟩
  | indexAssign name position e s =>
    unfold Stmt.exec
    refine .evaluate_bind (fun env => (position.pure_evalInteger env).mono ?_) fun i => ?_
    · intro n hn
      simp [nodes, hn]
    refine .evaluate_bind (fun env => .listNamed env name s) fun r => ?_
    refine .evaluate_bind (fun env => (e.pure_eval env).mono ?_) fun x => ?_
    · intro n hn
      simp [nodes, hn]
    refine .evaluate_bind (fun _ => .get fun h => .ofExcept s (h.ofValues_position r i)) fun i => ?_
    exact .of_never fun w => ⟨_, _, rfl⟩
  | print e s =>
    unfold Stmt.exec
    exact .map (.printValue (List.subset_cons_self _ _) _) some
  | printLine e s =>
    unfold Stmt.exec
    exact .map (.printValue (List.subset_cons_self _ _) _) some
  | loop => exact h.elim
  | branch => exact h.elim

/-! ## The statements that a run comes to -/

/-- Before one turn of a loop: the turns before it are done and the counter is bound. -/
def Exec.beforeTurn (var : String) (body : Exec σ (Option Value)) (stride : Int) (n : Nat)
    (i : Int) : Exec σ Unit := do
  iterate var body stride n i
  assign var (.int (Int64.ofInt (i + n * stride)))

/-- `Reaches ss w s u`: running `ss` from the world `w` comes to the statement `s`, at
any depth, in the world `u`. -/
inductive Reaches : List Stmt → WorldOf σ → Stmt → WorldOf σ → Prop
  | here {s ss w} : Reaches (s :: ss) w s w
  | next {s ss w result v t u} :
    s.exec w = .ok result v → Reaches ss v t u → Reaches (s :: ss) w t u
  | thenBody {cond thenBody elseBody span ss w v t u} :
    Exec.evaluate (fun env => cond.evalBoolean env) w = .ok true v → Reaches thenBody v t u →
    Reaches (.branch cond thenBody elseBody span :: ss) w t u
  | elseBody {cond thenBody elseBody span ss w v t u} :
    Exec.evaluate (fun env => cond.evalBoolean env) w = .ok false v → Reaches elseBody v t u →
    Reaches (.branch cond thenBody (some elseBody) span :: ss) w t u
  | body {var range body span ss w w₁ w₂ lo hi n v t u} :
    Exec.evaluate (fun env => range.lo.evalInteger env) w = .ok lo w₁ →
    Exec.evaluate (fun env => range.hi.evalInteger env) w₁ = .ok hi w₂ →
    n < Exec.iterations lo hi →
    Exec.beforeTurn var (Stmt.execAll none body) (Exec.stride lo hi) n lo.toInt w₂ = .ok () v →
    Reaches body v t u → Reaches (.loop var range body span :: ss) w t u

theorem Reaches.nodes_subset {ss : List Stmt} {s : Stmt} {w u : WorldOf σ}
    (h : Reaches ss w s u) : s.nodes ⊆ Stmt.allNodes ss := by
  induction h with
  | here => exact List.subset_append_left _ _
  | next _ _ ih => exact List.subset_append_of_subset_right _ ih
  | @thenBody cond thenBody elseBody span ss _ _ _ _ _ _ ih =>
    intro n hn
    have := ih hn
    cases elseBody <;> simp [Stmt.allNodes, Stmt.nodes, this]
  | elseBody _ _ ih =>
    intro n hn
    simp [Stmt.allNodes, Stmt.nodes, ih hn]
  | body _ _ _ _ _ ih =>
    intro n hn
    simp [Stmt.allNodes, Stmt.nodes, ih hn]

/-- What running the statement that a run comes to comes to, the run comes to. -/
theorem Reaches.trans {ss : List Stmt} {s t : Stmt} {w u v : WorldOf σ} (h : Reaches ss w s u)
    (ht : Reaches [s] u t v) : Reaches ss w t v := by
  induction h with
  | here =>
    cases ht with
    | here => exact .here
    | next _ hnil => cases hnil
    | thenBody htaken ht => exact .thenBody htaken ht
    | elseBody htaken ht => exact .elseBody htaken ht
    | body hlo hhi hn hturn ht => exact .body hlo hhi hn hturn ht
  | next hs _ ih => exact .next hs (ih ht)
  | thenBody htaken _ ih => exact .thenBody htaken (ih ht)
  | elseBody htaken _ ih => exact .elseBody htaken (ih ht)
  | body hlo hhi hn hturn _ ih => exact .body hlo hhi hn hturn (ih ht)

/-- Whether running `ss` from `w` comes to a statement that stops with this fault, so
that it leaves the world `v` and has not changed anything itself. -/
def StopsIn (ss : List Stmt) (w : WorldOf σ) (f : Fault) (v : WorldOf σ) : Prop :=
  ∃ s u, Reaches ss w s u ∧ s.exec u = .error f v ∧ Stopped s.nodes u v f

/-- A property of the statements that stop with the fault `f` and leave the world `v`:
those without bodies have it, and all that are stopped by an expression of theirs. -/
structure OfStopped (P : Stmt → WorldOf σ → Prop) (f : Fault) (v : WorldOf σ) : Prop where
  simple : ∀ s u, s.Simple → s.exec u = .error f v → P s u
  evaluation : ∀ s u, Untouched u v → f.cause.ArisesIn s.nodes → P s u

theorem Stopped.ofStopped (f : Fault) (v : WorldOf σ) :
    OfStopped (fun s u => Stopped s.nodes u v f) f v where
  simple _ u hs h := (Stmt.atomic_exec hs).stopped u f v h
  evaluation _ _ := .evaluation

/-- `StopsItself f v s u`: run in the world `u`, the statement `s` stops with the fault `f`,
and not in a body: it has none, or it is at a bound or a condition. -/
inductive StopsItself (f : Fault) (v : WorldOf σ) : Stmt → WorldOf σ → Prop
  | simple {s u} : s.Simple → s.exec u = .error f v → StopsItself f v s u
  | low {var range body span u} :
    Exec.evaluate (fun env => range.lo.evalInteger env) u = .error f v →
    StopsItself f v (.loop var range body span) u
  | high {var range body span u u₁ lo} :
    Exec.evaluate (fun env => range.lo.evalInteger env) u = .ok lo u₁ →
    Exec.evaluate (fun env => range.hi.evalInteger env) u₁ = .error f v →
    StopsItself f v (.loop var range body span) u
  | condition {cond thenBody elseBody span u} :
    Exec.evaluate (fun env => cond.evalBoolean env) u = .error f v →
    StopsItself f v (.branch cond thenBody elseBody span) u

theorem Range.pure_evalIntegers (r : Range) (env : Environment) :
    Eval.Pure r.nodes (r.lo.evalInteger env) ∧ Eval.Pure r.nodes (r.hi.evalInteger env) := by
  constructor
  · refine (r.lo.pure_evalInteger env).mono fun n hn => ?_
    simp [nodes, hn]
  · refine (r.hi.pure_evalInteger env).mono fun n hn => ?_
    simp [nodes, hn]

theorem OfStopped.of_stopsItself {P : Stmt → WorldOf σ → Prop} {f : Fault} {v u : WorldOf σ}
    (hP : OfStopped P f v) {s : Stmt} (h : StopsItself f v s u) : P s u := by
  cases h with
  | simple hs h => exact hP.simple s u hs h
  | @low var range body span _ h =>
    have hlo (env : Environment) := (range.pure_evalIntegers env).1
    obtain ⟨huntouched, hcause⟩ := Exec.untouched_of_evaluate_error hlo h
    refine hP.evaluation _ _ huntouched (hcause.mono fun n hn => ?_)
    simp [Stmt.nodes, hn]
  | @high var range body span _ _ _ hlow h =>
    have hlo (env : Environment) := (range.pure_evalIntegers env).1
    have hhi (env : Environment) := (range.pure_evalIntegers env).2
    obtain ⟨huntouched, hcause⟩ := Exec.untouched_of_evaluate_error hhi h
    refine hP.evaluation _ _ ((Exec.untouched_of_evaluate hlo hlow).trans huntouched)
      (hcause.mono fun n hn => ?_)
    simp [Stmt.nodes, hn]
  | @condition cond thenBody elseBody span _ h =>
    obtain ⟨huntouched, hcause⟩ :=
      Exec.untouched_of_evaluate_error (fun env => cond.pure_evalBoolean env) h
    refine hP.evaluation _ _ huntouched (hcause.mono fun n hn => ?_)
    cases elseBody <;> simp [Stmt.nodes, hn]

omit [Output σ] in
theorem Exec.beforeTurn_zero (var : String) (body : Exec σ (Option Value)) (stride i : Int) :
    beforeTurn var body stride 0 i = assign var (.int (Int64.ofInt i)) := by
  simp [beforeTurn, iterate]

omit [Output σ] in
/-- A later turn of a loop is one of the turns that come after the first. -/
theorem Exec.beforeTurn_succ (var : String) (body : Exec σ (Option Value)) (stride : Int)
    (n : Nat) (i : Int) :
    beforeTurn var body stride (n + 1) i = (do
      assign var (.int (Int64.ofInt i))
      let _ ← body
      beforeTurn var body stride n (i + stride)) := by
  have hnext : i + stride + n * stride = i + (n + 1 : Nat) * stride := by
    rw [Int.natCast_add, Int.add_mul]
    omega
  simp only [beforeTurn, iterate, bind_assoc, hnext]

omit [Output σ] in
/-- Turns that stop do so in the body of one of them. -/
theorem Exec.exists_turn {var : String} {body : Exec σ (Option Value)} {stride : Int} {n : Nat}
    {i : Int} {w v : WorldOf σ} {f : Fault} (h : iterate var body stride n i w = .error f v) :
    ∃ k < n, ∃ u, beforeTurn var body stride k i w = .ok () u ∧ body u = .error f v := by
  induction n generalizing i w with
  | zero => cases h
  | succ n ih =>
    unfold iterate at h
    rcases bind_eq_error_iff.1 h with hassign | ⟨⟨⟩, u, hassign, h⟩
    · cases hassign
    rcases bind_eq_error_iff.1 h with hbody | ⟨result, u', hbody, h⟩
    · exact ⟨0, Nat.succ_pos n, u, (beforeTurn_zero ..).symm ▸ hassign, hbody⟩
    · obtain ⟨k, hk, x, hturn, hfault⟩ := ih h
      refine ⟨k + 1, Nat.succ_lt_succ hk, x, ?_, hfault⟩
      rw [beforeTurn_succ]
      exact bind_eq_ok_iff.2 ⟨(), u, hassign, bind_eq_ok_iff.2 ⟨result, u', hbody, hturn⟩⟩

/-- A loop that stops does so at a bound or in its body, in one of its turns. -/
theorem Stmt.stopped_or_turn {var : String} {range : Range} {body : List Stmt}
    {span : Span} {w v : WorldOf σ} {f : Fault}
    (h : (loop var range body span).exec w = .error f v) :
    StopsItself f v (loop var range body span) w ∨ ∃ u, execAll none body u = .error f v ∧
      ∀ ss s x, Reaches body u s x → Reaches (loop var range body span :: ss) w s x := by
  unfold exec at h
  rcases bind_eq_error_iff.1 h with hstop | ⟨lo, w₁, hlow, h⟩
  · exact .inl (.low hstop)
  rcases bind_eq_error_iff.1 h with hstop | ⟨hi, w₂, hhigh, h⟩
  · exact .inl (.high hlow hstop)
  rcases bind_eq_error_iff.1 h with hiterate | ⟨⟨⟩, w₃, -, hunbind⟩
  · obtain ⟨n, hn, u, hturn, hbody⟩ := Exec.exists_turn hiterate
    exact .inr ⟨u, hbody, fun _ _ _ hreaches => .body hlow hhigh hn hturn hreaches⟩
  · cases hunbind

/-- A conditional does what the body that it takes does. -/
theorem Stmt.exec_of_taken {cond : Expr} {thenBody : List Stmt} {elseBody : Option (List Stmt)}
    {span : Span} {w u : WorldOf σ}
    (h : Exec.evaluate (fun env => cond.evalBoolean env) w = .ok true u) :
    (branch cond thenBody elseBody span).exec w = execAll none thenBody u := by
  unfold exec
  simp only [Bind.bind, EStateM.bind, h, ↓reduceIte]

theorem Stmt.exec_of_not_taken {cond : Expr} {thenBody elseBody : List Stmt} {span : Span}
    {w u : WorldOf σ} (h : Exec.evaluate (fun env => cond.evalBoolean env) w = .ok false u) :
    (branch cond thenBody (some elseBody) span).exec w = execAll none elseBody u := by
  unfold exec
  simp only [Bind.bind, EStateM.bind, h, Bool.false_eq_true, ↓reduceIte]

/-- A conditional that stops does so at its condition or in the body that it takes. -/
theorem Stmt.stopped_or_taken {cond : Expr} {thenBody : List Stmt}
    {elseBody : Option (List Stmt)} {span : Span} {w v : WorldOf σ} {f : Fault}
    (h : (branch cond thenBody elseBody span).exec w = .error f v) :
    StopsItself f v (branch cond thenBody elseBody span) w ∨
      ∃ body u, (body = thenBody ∨ elseBody = some body) ∧ execAll none body u = .error f v ∧
        ∀ ss s x, Reaches body u s x →
          Reaches (branch cond thenBody elseBody span :: ss) w s x := by
  unfold exec at h
  rcases bind_eq_error_iff.1 h with hstop | ⟨taken, u, htaken, hbody⟩
  · exact .inl (.condition hstop)
  right
  cases taken with
  | true => exact ⟨thenBody, u, .inl rfl, hbody, fun _ _ _ => .thenBody htaken⟩
  | false =>
    cases elseBody with
    | none => cases hbody
    | some rest => exact ⟨rest, u, .inr rfl, hbody, fun _ _ _ => .elseBody htaken⟩

mutual

/-- A statement stops itself, or one in a body of it does. -/
theorem Stmt.exists_stopsItself {f : Fault} {v : WorldOf σ} : (s : Stmt) → {w : WorldOf σ} →
    s.exec w = .error f v → (ss : List Stmt) →
    ∃ t u, Reaches (s :: ss) w t u ∧ t.exec u = .error f v ∧ StopsItself f v t u
  | .assign .., _, h, _ => ⟨_, _, .here, h, .simple trivial h⟩
  | .indexAssign .., _, h, _ => ⟨_, _, .here, h, .simple trivial h⟩
  | .print .., _, h, _ => ⟨_, _, .here, h, .simple trivial h⟩
  | .printLine .., _, h, _ => ⟨_, _, .here, h, .simple trivial h⟩
  | .loop _ _ body _, _, h, ss => by
    rcases Stmt.stopped_or_turn h with hstops | ⟨u, hbody, hbelow⟩
    · exact ⟨_, _, .here, h, hstops⟩
    · obtain ⟨t, x, hreaches, hstops⟩ := Stmt.exists_stopsItself_of_execAll body hbody
      exact ⟨t, x, hbelow ss t x hreaches, hstops⟩
  | .branch _ thenBody none _, _, h, ss => by
    rcases Stmt.stopped_or_taken h with hstops | ⟨_, u, rfl | hrest, hbody, hbelow⟩
    · exact ⟨_, _, .here, h, hstops⟩
    · obtain ⟨t, x, hreaches, hstops⟩ := Stmt.exists_stopsItself_of_execAll _ hbody
      exact ⟨t, x, hbelow ss t x hreaches, hstops⟩
    · cases hrest
  | .branch _ thenBody (some elseBody) _, _, h, ss => by
    rcases Stmt.stopped_or_taken h with hstops | ⟨_, u, rfl | hrest, hbody, hbelow⟩
    · exact ⟨_, _, .here, h, hstops⟩
    · obtain ⟨t, x, hreaches, hstops⟩ := Stmt.exists_stopsItself_of_execAll _ hbody
      exact ⟨t, x, hbelow ss t x hreaches, hstops⟩
    · cases hrest
      obtain ⟨t, x, hreaches, hstops⟩ := Stmt.exists_stopsItself_of_execAll elseBody hbody
      exact ⟨t, x, hbelow ss t x hreaches, hstops⟩

theorem Stmt.exists_stopsItself_of_execAll {f : Fault} {v : WorldOf σ} : (ss : List Stmt) →
    {last : Option Value} → {w : WorldOf σ} → Stmt.execAll last ss w = .error f v →
    ∃ t u, Reaches ss w t u ∧ t.exec u = .error f v ∧ StopsItself f v t u
  | [], _, _, h => by
    unfold Stmt.execAll at h
    cases h
  | s :: ss, _, w, h => by
    unfold Stmt.execAll at h
    rcases bind_eq_error_iff.1 h with hs | ⟨result, u, hs, hss⟩
    · exact Stmt.exists_stopsItself s hs ss
    · obtain ⟨t, x, hreaches, hstops⟩ := Stmt.exists_stopsItself_of_execAll ss hss
      exact ⟨t, x, .next hs hreaches, hstops⟩

end

theorem Stmt.exists_stopped_of_execAll {P : Stmt → WorldOf σ → Prop} {f : Fault}
    {v : WorldOf σ} (hP : OfStopped P f v) (ss : List Stmt) {last : Option Value}
    {w : WorldOf σ} (h : Stmt.execAll last ss w = .error f v) :
    ∃ t u, Reaches ss w t u ∧ t.exec u = .error f v ∧ P t u := by
  obtain ⟨t, u, hreaches, hexec, hstops⟩ := Stmt.exists_stopsItself_of_execAll ss h
  exact ⟨t, u, hreaches, hexec, hP.of_stopsItself hstops⟩

/-- A run that stops does so in a statement that it has come to. -/
theorem Stmt.stopsIn_of_execAll (ss : List Stmt) {last : Option Value} {w v : WorldOf σ}
    {f : Fault} (h : Stmt.execAll last ss w = .error f v) : StopsIn ss w f v :=
  Stmt.exists_stopped_of_execAll (Stopped.ofStopped f v) ss h

/-- A run that the output stops is stopped in a statement without a body. -/
theorem Stmt.exists_simple_of_io {ss : List Stmt} {last : Option Value} {w v : WorldOf σ}
    {f : Fault} {message : String} (h : Stmt.execAll last ss w = .error f v)
    (hf : f.cause = .io message) :
    ∃ s u, Reaches ss w s u ∧ s.exec u = .error f v ∧ s.Simple := by
  refine Stmt.exists_stopped_of_execAll ⟨fun _ _ hs _ => hs, fun s u _ hcause => ?_⟩ ss h
  rw [hf] at hcause
  exact hcause.elim

end Scriptlet
