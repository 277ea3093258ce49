-- What a run keeps. A run is made of the statements that it comes to: what each of
-- those keeps by itself, and the turns of each loop keep, the whole run keeps, whether
-- or not it comes to an end.
import Scriptlet.Proofs.Reaching

namespace Scriptlet

variable {σ : Type}

/-! ## The world that a step leaves -/

namespace Exec

variable {α β : Type} {I : WorldOf σ → Prop} {w : WorldOf σ}

/-- The world after a step, whether or not it comes to an end. -/
def worldAfter (step : Exec σ α) (w : WorldOf σ) : WorldOf σ :=
  match step w with
  | .ok _ v | .error _ v => v

theorem worldAfter_of_ok {step : Exec σ α} {a : α} {v : WorldOf σ} (h : step w = .ok a v) :
    worldAfter step w = v := by
  simp [worldAfter, h]

theorem worldAfter_of_error {step : Exec σ α} {f : Fault} {v : WorldOf σ}
    (h : step w = .error f v) : worldAfter step w = v := by
  simp [worldAfter, h]

/-- What the first of two steps establishes, and the second one keeps, is there after
both. -/
theorem worldAfter_bind {step : Exec σ α} {next : α → Exec σ β} (h : I (worldAfter step w))
    (hnext : ∀ a v, step w = .ok a v → I v → I (worldAfter (next a) v)) :
    I (worldAfter (step >>= next) w) := by
  unfold worldAfter at h ⊢
  simp only [Bind.bind, EStateM.bind]
  cases hstep : step w with
  | ok a v =>
    rw [hstep] at h
    exact hnext a v hstep h
  | error f v =>
    rw [hstep] at h
    exact h

theorem worldAfter_bind_of_ok {step : Exec σ α} {next : α → Exec σ β} {a : α} {v : WorldOf σ}
    (h : step w = .ok a v) : worldAfter (step >>= next) w = worldAfter (next a) v := by
  simp only [worldAfter, Bind.bind, EStateM.bind, h]

theorem worldAfter_output [Output σ] (s : Span) (text : String) :
    worldAfter (output s text) w = { w with sink := (Output.write w.sink text).1 } := by
  unfold worldAfter output
  rcases Output.write w.sink text with ⟨sink, _ | message⟩ <;> rfl

/-- Evaluating changes nothing that was there. -/
theorem untouched_worldAfter {ns : List Node} {step : Environment → Eval α}
    (h : ∀ env, Eval.Pure ns (step env)) (w : WorldOf σ) :
    Untouched w (worldAfter (evaluate step) w) := by
  cases hstep : evaluate step w with
  | ok a v =>
    rw [worldAfter_of_ok hstep]
    exact untouched_of_evaluate h hstep
  | error f v =>
    rw [worldAfter_of_error hstep]
    exact (untouched_of_evaluate_error h hstep).1

/-- What is asked of a value changes no world. -/
theorem worldAfter_evaluate_ofKind (step : Environment → Eval Value) (expected : Kind)
    (view : Value → Option α) (s : Span) :
    worldAfter (evaluate fun env => step env >>= Eval.ofKind expected view s) w =
      worldAfter (evaluate step) w := by
  unfold worldAfter evaluate
  simp only [Bind.bind, EStateM.bind]
  cases step w.env w.heap with
  | error f h => rfl
  | ok v h =>
    unfold Eval.ofKind
    dsimp only
    cases view v <;> rfl

end Exec

/-! ## Turns of a loop -/

/-- What the turns of a loop keep: binding the counter does, and so does each body in the
world that its turn starts in. -/
structure KeptByTurns (I : WorldOf σ → Prop) (var : String) (body : Exec σ (Option Value))
    (stride : Int) (n : Nat) (i : Int) (w : WorldOf σ) : Prop where
  counter : ∀ v x, I v → I { v with env := v.env.write var (.int x) }
  body : ∀ k < n, ∀ v, Exec.beforeTurn var body stride k i w = .ok () v → I v →
    I (Exec.worldAfter body v)

namespace KeptByTurns

variable {I : WorldOf σ → Prop} {var : String} {body : Exec σ (Option Value)} {stride : Int}
  {n k : Nat} {i : Int} {w u v : WorldOf σ} {result : Option Value}

theorem tail (h : KeptByTurns I var body stride (n + 1) i w)
    (hassign : Exec.assign var (.int (Int64.ofInt i)) w = .ok () u)
    (hbody : body u = .ok result v) : KeptByTurns I var body stride n (i + stride) v := by
  refine ⟨h.counter, fun k hk x hx hIx => h.body (k + 1) (Nat.succ_lt_succ hk) x ?_ hIx⟩
  rw [Exec.beforeTurn_succ]
  exact bind_eq_ok_iff.2 ⟨(), u, hassign, bind_eq_ok_iff.2 ⟨result, v, hbody, hx⟩⟩

theorem iterate (h : KeptByTurns I var body stride n i w) (hw : I w) :
    I (Exec.worldAfter (Exec.iterate var body stride n i) w) := by
  induction n generalizing i w with
  | zero => exact hw
  | succ n ih =>
    unfold Exec.iterate
    refine Exec.worldAfter_bind (h.counter w _ hw) fun _ u hassign hu => ?_
    have hfirst := (Exec.beforeTurn_zero var body stride i).symm ▸ hassign
    refine Exec.worldAfter_bind (h.body 0 n.succ_pos u hfirst hu) fun result v hbody hv => ?_
    exact ih (h.tail hassign hbody) hv

/-- What is there after the body of one turn, the turns after it keep. -/
theorem iterate_after (h : KeptByTurns I var body stride n i w) (hk : k < n)
    (hturn : Exec.beforeTurn var body stride k i w = .ok () v) (hv : I (Exec.worldAfter body v)) :
    I (Exec.worldAfter (Exec.iterate var body stride n i) w) := by
  induction k generalizing n i w with
  | zero =>
    obtain ⟨n, rfl⟩ := Nat.exists_eq_add_one.2 hk
    rw [Exec.beforeTurn_zero] at hturn
    unfold Exec.iterate
    rw [Exec.worldAfter_bind_of_ok hturn]
    exact Exec.worldAfter_bind hv fun result x hbody hx => (h.tail hturn hbody).iterate hx
  | succ k ih =>
    obtain ⟨n, rfl⟩ := Nat.exists_eq_add_one.2 (Nat.zero_lt_of_lt hk)
    rw [Exec.beforeTurn_succ] at hturn
    obtain ⟨⟨⟩, u, hassign, hturn⟩ := bind_eq_ok_iff.1 hturn
    obtain ⟨result, x, hbody, hturn⟩ := bind_eq_ok_iff.1 hturn
    unfold Exec.iterate
    rw [Exec.worldAfter_bind_of_ok hassign, Exec.worldAfter_bind_of_ok hbody]
    exact ih (h.tail hassign hbody) (Nat.lt_of_succ_lt_succ hk) hturn

theorem fewer (h : KeptByTurns I var body stride n i w) (hk : k ≤ n) :
    KeptByTurns I var body stride k i w :=
  ⟨h.counter, fun j hj => h.body j (Nat.lt_of_lt_of_le hj hk)⟩

/-- Before a turn there is what the turns before it have kept. -/
theorem beforeTurn (h : KeptByTurns I var body stride n i w) (hk : k < n) (hw : I w)
    (hturn : Exec.beforeTurn var body stride k i w = .ok () v) : I v := by
  rw [← Exec.worldAfter_of_ok hturn]
  unfold Exec.beforeTurn
  have hbefore := (h.fewer (Nat.le_of_lt hk)).iterate hw
  exact Exec.worldAfter_bind hbefore fun _ u _ hu => h.counter u _ hu

end KeptByTurns

/-! ## Runs -/

variable [Output σ]

/-- What each statement that a run of `ss` from `w` comes to keeps by itself: values of
expressions, statements without bodies, and the turns and the end of a loop. -/
structure Kept (I : WorldOf σ → Prop) (ss : List Stmt) (w : WorldOf σ) : Prop where
  value : ∀ (e : Expr) u, I u → I (Exec.worldAfter (Exec.evaluate fun env => e.eval env) u)
  simple : ∀ s u, Reaches ss w s u → s.Simple → I u → I (Exec.worldAfter s.exec u)
  turn : ∀ var range body span u, Reaches ss w (.loop var range body span) u →
    ∀ v n, I v → I { v with env := v.env.write var (.int n) }
  unbind : ∀ var range body span u, Reaches ss w (.loop var range body span) u →
    ∀ v, I v → I { v with env := v.env.remove var }

namespace Kept

variable {I : WorldOf σ → Prop} {s : Stmt} {ss rs : List Stmt} {w u v : WorldOf σ}

/-- A run of which every statement is one of another run. -/
theorem below (h : Kept I ss w) (hbelow : ∀ s x, Reaches rs u s x → Reaches ss w s x) :
    Kept I rs u where
  value := h.value
  simple := fun s x hs => h.simple s x (hbelow s x hs)
  turn := fun var range body span x hs => h.turn var range body span x (hbelow _ x hs)
  unbind := fun var range body span x hs => h.unbind var range body span x (hbelow _ x hs)

theorem tail (h : Kept I (s :: ss) w) {result : Option Value} (hs : s.exec w = .ok result v) :
    Kept I ss v := h.below fun _ _ => .next hs

theorem integer (h : Kept I ss w) (e : Expr) (hu : I u) :
    I (Exec.worldAfter (Exec.evaluate fun env => e.evalInteger env) u) :=
  (Exec.worldAfter_evaluate_ofKind (fun env => e.eval env) ..).symm ▸ h.value e u hu

theorem boolean (h : Kept I ss w) (e : Expr) (hu : I u) :
    I (Exec.worldAfter (Exec.evaluate fun env => e.evalBoolean env) u) :=
  (Exec.worldAfter_evaluate_ofKind (fun env => e.eval env) ..).symm ▸ h.value e u hu

end Kept

mutual

theorem Stmt.keeps_exec {I : WorldOf σ → Prop} : (s : Stmt) → {ss : List Stmt} →
    {w : WorldOf σ} → Kept I (s :: ss) w → I w → I (Exec.worldAfter s.exec w)
  | .assign .., _, w, h, hw => h.simple _ w .here trivial hw
  | .indexAssign .., _, w, h, hw => h.simple _ w .here trivial hw
  | .print .., _, w, h, hw => h.simple _ w .here trivial hw
  | .printLine .., _, w, h, hw => h.simple _ w .here trivial hw
  | .loop var range body span, _, w, h, hw => by
    unfold Stmt.exec
    refine Exec.worldAfter_bind (h.integer range.lo hw) fun lo w₁ hlo hw₁ => ?_
    refine Exec.worldAfter_bind (h.integer range.hi hw₁) fun hi w₂ hhi hw₂ => ?_
    refine Exec.worldAfter_bind ?_ fun _ v _ hv => h.unbind var range body span w .here v hv
    refine KeptByTurns.iterate ⟨h.turn var range body span w .here, fun k hk v hv hIv => ?_⟩ hw₂
    exact Stmt.keeps_execAll none body (h.below fun _ _ => .body hlo hhi hk hv) hIv
  | .branch cond thenBody elseBody span, _, w, h, hw => by
    unfold Stmt.exec
    refine Exec.worldAfter_bind (h.boolean cond hw) fun taken v htaken hv => ?_
    cases taken with
    | true => exact Stmt.keeps_execAll none thenBody (h.below fun _ _ => .thenBody htaken) hv
    | false =>
      match elseBody with
      | none => exact hv
      | some elseBody =>
        exact Stmt.keeps_execAll none elseBody (h.below fun _ _ => .elseBody htaken) hv

/-- What the statements that a run comes to keep, the run keeps. -/
theorem Stmt.keeps_execAll {I : WorldOf σ → Prop} (last : Option Value) : (ss : List Stmt) →
    {w : WorldOf σ} → Kept I ss w → I w → I (Exec.worldAfter (Stmt.execAll last ss) w)
  | [], _, _, hw => by
    unfold Stmt.execAll
    exact hw
  | s :: ss, w, h, hw => by
    unfold Stmt.execAll
    exact Exec.worldAfter_bind (Stmt.keeps_exec s h hw) fun last v hs hv =>
      Stmt.keeps_execAll last ss (h.tail hs) hv

end

theorem Kept.turns {I : WorldOf σ → Prop} {var : String} {range : Range} {body ss : List Stmt}
    {span : Span} {w w₁ w₂ : WorldOf σ} {lo hi : Int64}
    (h : Kept I (.loop var range body span :: ss) w)
    (hlo : Exec.evaluate (fun env => range.lo.evalInteger env) w = .ok lo w₁)
    (hhi : Exec.evaluate (fun env => range.hi.evalInteger env) w₁ = .ok hi w₂) :
    KeptByTurns I var (Stmt.execAll none body) (Exec.stride lo hi) (Exec.iterations lo hi)
      lo.toInt w₂ where
  counter := h.turn var range body span w .here
  body _ hk _ hv := Stmt.keeps_execAll none body (h.below fun _ _ => .body hlo hhi hk hv)

/-- A run comes to each of its statements in a world with what it keeps. -/
theorem Kept.reached {I : WorldOf σ → Prop} {ss : List Stmt} {s : Stmt} {w u : WorldOf σ}
    (hreaches : Reaches ss w s u) (h : Kept I ss w) (hw : I w) : I u := by
  induction hreaches with
  | here => exact hw
  | next hv _ ih =>
    refine ih (h.tail hv) ?_
    rw [← Exec.worldAfter_of_ok hv]
    exact Stmt.keeps_exec _ h hw
  | @thenBody cond _ _ _ _ _ _ _ _ htaken _ ih =>
    refine ih (h.below fun _ _ => .thenBody htaken) ?_
    rw [← Exec.worldAfter_of_ok htaken]
    exact h.boolean cond hw
  | @elseBody cond _ _ _ _ _ _ _ _ htaken _ ih =>
    refine ih (h.below fun _ _ => .elseBody htaken) ?_
    rw [← Exec.worldAfter_of_ok htaken]
    exact h.boolean cond hw
  | @body var range body span _ w w₁ w₂ _ _ _ _ _ _ hlo hhi hn hturn _ ih =>
    refine ih (h.below fun _ _ => .body hlo hhi hn hturn) ?_
    have hw₁ : I w₁ := Exec.worldAfter_of_ok hlo ▸ h.integer range.lo hw
    have hw₂ : I w₂ := Exec.worldAfter_of_ok hhi ▸ h.integer range.hi hw₁
    exact (h.turns hlo hhi).beforeTurn hn hw₂ hturn

/-- What a run keeps, each statement that it comes to keeps when it runs alone. -/
theorem Kept.alone {I : WorldOf σ → Prop} {ss : List Stmt} {s : Stmt} {w u : WorldOf σ}
    (hreaches : Reaches ss w s u) (h : Kept I ss w) : Kept I [s] u :=
  h.below fun _ _ ht => hreaches.trans ht

/-- What is there after a statement that a run comes to, the rest of the run keeps. -/
theorem Kept.of_reaches {I : WorldOf σ → Prop} {ss : List Stmt} {s : Stmt} {w u : WorldOf σ}
    (hreaches : Reaches ss w s u) (h : Kept I ss w) (hs : I (Exec.worldAfter s.exec u))
    (last : Option Value) : I (Exec.worldAfter (Stmt.execAll last ss) w) := by
  have hrest {s ss w} (h : Kept I (s :: ss) w) (hs : I (Exec.worldAfter s.exec w))
      (last : Option Value) : I (Exec.worldAfter (Stmt.execAll last (s :: ss)) w) := by
    unfold Stmt.execAll
    exact Exec.worldAfter_bind hs fun last v hv hIv => Stmt.keeps_execAll last ss (h.tail hv) hIv
  induction hreaches generalizing last with
  | here => exact hrest h hs last
  | next hv _ ih =>
    unfold Stmt.execAll
    rw [Exec.worldAfter_bind_of_ok hv]
    exact ih (h.tail hv) hs _
  | thenBody htaken _ ih =>
    refine hrest h ?_ last
    unfold Stmt.exec
    rw [Exec.worldAfter_bind_of_ok htaken]
    exact ih (h.below fun _ _ => .thenBody htaken) hs none
  | elseBody htaken _ ih =>
    refine hrest h ?_ last
    unfold Stmt.exec
    rw [Exec.worldAfter_bind_of_ok htaken]
    exact ih (h.below fun _ _ => .elseBody htaken) hs none
  | @body var range body span _ w _ _ _ _ _ _ _ _ hlo hhi hn hturn _ ih =>
    refine hrest h ?_ last
    unfold Stmt.exec
    rw [Exec.worldAfter_bind_of_ok hlo, Exec.worldAfter_bind_of_ok hhi]
    refine Exec.worldAfter_bind ?_ fun _ v _ hv => h.unbind var range body span w .here v hv
    have hbody := ih (h.below fun _ _ => .body hlo hhi hn hturn) hs none
    exact (h.turns hlo hhi).iterate_after hn hturn hbody

/-- All that a program does after its statements is to flush the output. -/
theorem Program.worldAfter_run (p : Program) (w : WorldOf σ) :
    let v := Exec.worldAfter (Stmt.execAll none p.stmts) w
    Exec.worldAfter p.run w = { v with sink := (Output.flush v.sink).1 } := by
  unfold Exec.worldAfter run
  cases Stmt.execAll none p.stmts w with
  | ok result v =>
    simp only [Bind.bind, EStateM.bind, Exec.flush]
    rcases Output.flush v.sink with ⟨sink, _ | message⟩ <;> rfl
  | error f v => rfl

end Scriptlet
