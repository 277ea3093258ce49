-- What a statement without a body does where it is not stopped: it binds a name,
-- replaces one item of one list, or hands one text to the output.
import Scriptlet.Proofs.Reaching

namespace Scriptlet

variable {σ : Type}

/-! ## Steps that come to an end -/

namespace Exec

variable {α : Type} {w v : WorldOf σ}

theorem evaluate_eq_ok_iff {step : Environment → Eval α} {a : α} :
    evaluate step w = .ok a v ↔ ∃ h, step w.env w.heap = .ok a h ∧ v = { w with heap := h } := by
  unfold evaluate
  cases step w.env w.heap with
  | ok b h =>
    constructor
    · rintro ⟨⟩
      exact ⟨h, rfl, rfl⟩
    · rintro ⟨_, ⟨⟩, rfl⟩
      rfl
  | error f h => simp

theorem evaluate_eq_error_iff {step : Environment → Eval α} {f : Fault} :
    evaluate step w = .error f v ↔
      ∃ h, step w.env w.heap = .error f h ∧ v = { w with heap := h } := by
  unfold evaluate
  cases step w.env w.heap with
  | ok a h => simp
  | error g h =>
    constructor
    · rintro ⟨⟩
      exact ⟨h, rfl, rfl⟩
    · rintro ⟨_, ⟨⟩, rfl⟩
      rfl

theorem evaluate_bind_of_ok {β : Type} {step : Environment → Eval α} {next : α → Exec σ β} {a : α}
    {h : Heap} (hstep : step w.env w.heap = .ok a h) :
    (evaluate step >>= next) w = next a { w with heap := h } := by
  simp only [Bind.bind, EStateM.bind, evaluate, hstep]

theorem evaluate_bind_of_error {β : Type} {step : Environment → Eval α} {next : α → Exec σ β}
    {f : Fault} {h : Heap} (hstep : step w.env w.heap = .error f h) :
    (evaluate step >>= next) w = .error f { w with heap := h } := by
  simp only [Bind.bind, EStateM.bind, evaluate, hstep]

theorem output_eq_ok_iff [Output σ] {s : Span} {text : String} :
    output s text w = .ok () v ↔
      (Output.write w.sink text).2 = none ∧ v = { w with sink := (Output.write w.sink text).1 } := by
  unfold output
  rcases Output.write w.sink text with ⟨sink, _ | message⟩
  · simp [eq_comm]
  · simp

theorem output_eq_error_iff [Output σ] {s : Span} {text : String} {f : Fault} :
    output s text w = .error f v ↔ ∃ message, (Output.write w.sink text).2 = some message ∧
      f = ⟨.io message, some s⟩ ∧ v = { w with sink := (Output.write w.sink text).1 } := by
  unfold output
  rcases Output.write w.sink text with ⟨sink, _ | message⟩
  · simp
  · simp [eq_comm]

end Exec

theorem Eval.ofExcept_eq_ok_iff {α : Type} {s : Span} {r : Except Fault α} {a : α} {h h' : Heap} :
    ofExcept s r h = .ok a h' ↔ r = .ok a ∧ h' = h := by
  cases r with
  | ok b => simp [ofExcept, pure, EStateM.pure, eq_comm]
  | error f =>
    constructor
    · rintro ⟨⟩
    · rintro ⟨⟨⟩, -⟩

theorem Eval.ofKind_eq_ok_iff {α : Type} {expected : Kind} {view : Value → Option α} {s : Span}
    {v : Value} {a : α} {h h' : Heap} :
    ofKind expected view s v h = .ok a h' ↔ view v = some a ∧ h' = h := by
  unfold ofKind
  cases hview : view v with
  | some b => simp [pure, EStateM.pure, eq_comm]
  | none =>
    constructor
    · rintro ⟨⟩
    · rintro ⟨⟨⟩, -⟩

theorem Environment.read_eq_ok_iff {env : Environment} {name : String} {v : Value} :
    env.read name = .ok v ↔ env.get? name = some v := by
  unfold read
  cases env.get? name <;> simp

theorem Value.list?_eq_some_iff {v : Value} {r : ListRef} : v.list? = some r ↔ v = .list r := by
  cases v <;> simp [list?]

theorem Eval.listNamed_eq_ok_iff {env : Environment} {name : String} {s : Span} {r : ListRef}
    {h h' : Heap} : listNamed env name s h = .ok r h' ↔ env.get? name = some (.list r) ∧ h' = h := by
  simp [listNamed, bind_eq_ok_iff, ofExcept_eq_ok_iff, ofKind_eq_ok_iff,
    Environment.read_eq_ok_iff, Value.list?_eq_some_iff]

/-! ## Statements without bodies -/

/-- The expression that a statement prints, and what follows its text. -/
def Stmt.printed? : Stmt → Option (Expr × String)
  | print e _ => some (e, "")
  | printLine e _ => some (e, "\n")
  | _ => none

variable [Output σ]

omit [Output σ] in
theorem Exec.map_eq_ok_iff {α β : Type} {step : Exec σ α} {g : α → β} {w v : WorldOf σ} {b : β} :
    (g <$> step) w = .ok b v ↔ ∃ a, step w = .ok a v ∧ g a = b := by
  simp only [Functor.map, EStateM.map]
  cases step w with
  | ok a u =>
    constructor
    · rintro ⟨⟩
      exact ⟨a, rfl, rfl⟩
    · rintro ⟨_, ⟨⟩, rfl⟩
      rfl
  | error f u => simp

theorem Stmt.exec_of_printed {s : Stmt} {e : Expr} {ending : String}
    (h : s.printed? = some (e, ending)) :
    (s.exec : Exec σ (Option Value)) = some <$> Exec.printValue e ending := by
  cases s <;> simp_all [printed?, Stmt.exec]

/-- What a statement without a body does: its result, and the world after it. -/
inductive Does (w : WorldOf σ) : Stmt → Value → WorldOf σ → Prop
  | assign {name e s x h} : e.eval w.env w.heap = .ok x h →
    Does w (.assign name e s) x ⟨w.env.write name x, h, w.sink⟩
  | store {name position e s n h₁ r x h₂ i} :
    position.evalInteger w.env w.heap = .ok n h₁ → w.env.get? name = some (.list r) →
    e.eval w.env h₁ = .ok x h₂ → h₂.position r n = .ok i →
    Does w (.indexAssign name position e s) x ⟨w.env, h₂.set r i x, w.sink⟩
  | print {s e ending x h} : Stmt.printed? s = some (e, ending) →
    e.eval w.env w.heap = .ok x h → (Output.write w.sink (h.display x ++ ending)).2 = none →
    Does w s x ⟨w.env, h, (Output.write w.sink (h.display x ++ ending)).1⟩

theorem Does.prints {w : WorldOf σ} {s : Stmt} {e : Expr} {ending text : String} {x : Value}
    {h : Heap} {sink : σ} (hprinted : s.printed? = some (e, ending))
    (heval : e.eval w.env w.heap = .ok x h) (htext : h.display x ++ ending = text)
    (hwrite : Output.write w.sink text = (sink, none)) : Does w s x ⟨w.env, h, sink⟩ := by
  subst htext
  have hdoes := Does.print (w := w) hprinted heval (congrArg Prod.snd hwrite)
  rwa [hwrite] at hdoes

theorem Exec.printValue_eq_ok_iff {e : Expr} {ending : String} {w v : WorldOf σ} {x : Value} :
    printValue e ending w = .ok x v ↔ ∃ h, e.eval w.env w.heap = .ok x h ∧
      (Output.write w.sink (h.display x ++ ending)).2 = none ∧
      v = ⟨w.env, h, (Output.write w.sink (h.display x ++ ending)).1⟩ := by
  unfold printValue
  simp only [bind_eq_ok_iff, evaluate_eq_ok_iff]
  constructor
  · rintro ⟨y, _, ⟨h, heval, rfl⟩, _, _, ⟨⟩, ⟨⟩, u, houtput, ⟨⟩⟩
    obtain ⟨hwrite, rfl⟩ := output_eq_ok_iff.1 houtput
    exact ⟨h, heval, hwrite, rfl⟩
  · rintro ⟨h, heval, hwrite, rfl⟩
    exact ⟨x, _, ⟨h, heval, rfl⟩, _, _, rfl, (), _, output_eq_ok_iff.2 ⟨hwrite, rfl⟩, rfl⟩

theorem Stmt.exec_eq_ok_iff_of_printed {s : Stmt} {e : Expr} {ending : String}
    (h : s.printed? = some (e, ending)) {w v : WorldOf σ} {result : Option Value} :
    s.exec w = .ok result v ↔ ∃ x, result = some x ∧ Does w s x v := by
  rw [Stmt.exec_of_printed h, Exec.map_eq_ok_iff]
  simp only [Exec.printValue_eq_ok_iff]
  constructor
  · rintro ⟨x, ⟨h', heval, hwrite, rfl⟩, rfl⟩
    exact ⟨x, rfl, .print h heval hwrite⟩
  · rintro ⟨x, rfl, hdoes⟩
    cases hdoes with
    | print hprinted heval hwrite =>
      cases h.symm.trans hprinted
      exact ⟨x, ⟨_, heval, hwrite, rfl⟩, rfl⟩
    | assign | store => cases h

theorem Stmt.exec_eq_ok_iff {s : Stmt} (hs : s.Simple) {w v : WorldOf σ} {result : Option Value} :
    s.exec w = .ok result v ↔ ∃ x, result = some x ∧ Does w s x v := by
  cases s with
  | assign name e s =>
    unfold Stmt.exec
    simp only [bind_eq_ok_iff, Exec.evaluate_eq_ok_iff]
    constructor
    · rintro ⟨x, _, ⟨h, heval, rfl⟩, ⟨⟩, _, ⟨⟩, ⟨⟩⟩
      exact ⟨x, rfl, .assign heval⟩
    · rintro ⟨x, rfl, hdoes⟩
      cases hdoes with
      | assign heval => exact ⟨x, _, ⟨_, heval, rfl⟩, (), _, rfl, rfl⟩
      | print hprinted => cases hprinted
  | indexAssign name position e s =>
    unfold Stmt.exec
    simp only [bind_eq_ok_iff, Exec.evaluate_eq_ok_iff, Eval.listNamed_eq_ok_iff]
    constructor
    · rintro ⟨n, _, ⟨h₁, hn, rfl⟩, r, _, ⟨_, ⟨hname, rfl⟩, rfl⟩, x, _, ⟨h₂, heval, rfl⟩, i, _,
        ⟨_, ⟨_, _, ⟨⟩, hi⟩, rfl⟩, ⟨⟩, _, ⟨⟩, ⟨⟩⟩
      obtain ⟨hi, rfl⟩ := Eval.ofExcept_eq_ok_iff.1 hi
      exact ⟨x, rfl, .store hn hname heval hi⟩
    · rintro ⟨x, rfl, hdoes⟩
      cases hdoes with
      | @store _ _ _ _ n h₁ r _ h₂ i hn hname heval hi =>
        exact ⟨n, _, ⟨h₁, hn, rfl⟩, r, _, ⟨_, ⟨hname, rfl⟩, rfl⟩, x, _, ⟨h₂, heval, rfl⟩, i, _,
          ⟨_, ⟨_, _, rfl, Eval.ofExcept_eq_ok_iff.2 ⟨hi, rfl⟩⟩, rfl⟩, (), _, rfl, rfl⟩
      | print hprinted => cases hprinted
  | print e s => exact Stmt.exec_eq_ok_iff_of_printed rfl
  | printLine e s => exact Stmt.exec_eq_ok_iff_of_printed rfl
  | loop => exact hs.elim
  | branch => exact hs.elim

/-! ## Statements that the output stops -/

omit [Output σ] in
theorem Exec.cause_ne_io_of_evaluate {α : Type} {ns : List Node} {step : Environment → Eval α}
    (h : ∀ env, Eval.Pure ns (step env)) {w v : WorldOf σ} {f : Fault}
    (hstep : evaluate step w = .error f v) (message : String) : f.cause ≠ .io message := by
  intro hf
  have hcause := (untouched_of_evaluate_error h hstep).2
  rw [hf] at hcause
  exact hcause

theorem Exec.printValue_eq_error_of_io {e : Expr} {ending : String} {w v : WorldOf σ} {f : Fault}
    {message : String} (h : printValue e ending w = .error f v) (hf : f.cause = .io message) :
    ∃ x h, e.eval w.env w.heap = .ok x h ∧
      (Output.write w.sink (h.display x ++ ending)).2 = some message ∧
      f = ⟨.io message, some e.span⟩ ∧
      v = ⟨w.env, h, (Output.write w.sink (h.display x ++ ending)).1⟩ := by
  unfold printValue at h
  rcases bind_eq_error_iff.1 h with hstop | ⟨x, _, hstep, h⟩
  · exact (cause_ne_io_of_evaluate (fun env => e.pure_eval env) hstop message hf).elim
  obtain ⟨heap, heval, rfl⟩ := evaluate_eq_ok_iff.1 hstep
  rcases bind_eq_error_iff.1 h with ⟨⟨⟩⟩ | ⟨_, _, ⟨⟩, h⟩
  rcases bind_eq_error_iff.1 h with houtput | ⟨_, _, -, ⟨⟩⟩
  obtain ⟨message', hwrite, rfl, rfl⟩ := output_eq_error_iff.1 houtput
  cases hf
  exact ⟨x, heap, heval, hwrite, rfl, rfl⟩

/-- A statement without a body that stops at the output prints, and stops at the
expression that it prints. -/
theorem Stmt.exec_eq_error_of_io {s : Stmt} (hs : s.Simple) {w v : WorldOf σ} {f : Fault}
    {message : String} (h : s.exec w = .error f v) (hf : f.cause = .io message) :
    ∃ e ending x h, s.printed? = some (e, ending) ∧ e.eval w.env w.heap = .ok x h ∧
      (Output.write w.sink (h.display x ++ ending)).2 = some message ∧
      f = ⟨.io message, some e.span⟩ ∧
      v = ⟨w.env, h, (Output.write w.sink (h.display x ++ ending)).1⟩ := by
  have hprints {e : Expr} {ending : String} (hprinted : s.printed? = some (e, ending)) :
      ∃ e ending x h, s.printed? = some (e, ending) ∧ e.eval w.env w.heap = .ok x h ∧
        (Output.write w.sink (h.display x ++ ending)).2 = some message ∧
        f = ⟨.io message, some e.span⟩ ∧
        v = ⟨w.env, h, (Output.write w.sink (h.display x ++ ending)).1⟩ := by
    rw [Stmt.exec_of_printed hprinted] at h
    rcases bind_eq_error_iff.1 h with hprint | ⟨_, _, -, ⟨⟩⟩
    obtain ⟨x, heap, hprint⟩ := Exec.printValue_eq_error_of_io hprint hf
    exact ⟨e, ending, x, heap, hprinted, hprint⟩
  cases s with
  | assign name e s =>
    unfold Stmt.exec at h
    rcases bind_eq_error_iff.1 h with hstop | ⟨_, _, -, ⟨⟩⟩
    exact (Exec.cause_ne_io_of_evaluate (fun env => e.pure_eval env) hstop message hf).elim
  | indexAssign name position e s =>
    unfold Stmt.exec at h
    rcases bind_eq_error_iff.1 h with hstop | ⟨n, _, -, h⟩
    · exact (Exec.cause_ne_io_of_evaluate (fun env => position.pure_evalInteger env) hstop
        message hf).elim
    rcases bind_eq_error_iff.1 h with hstop | ⟨r, _, -, h⟩
    · have hlist (env : Environment) : Eval.Pure [] (Eval.listNamed env name s) :=
        .listNamed env name s
      exact (Exec.cause_ne_io_of_evaluate hlist hstop message hf).elim
    rcases bind_eq_error_iff.1 h with hstop | ⟨x, _, -, h⟩
    · exact (Exec.cause_ne_io_of_evaluate (fun env => e.pure_eval env) hstop message hf).elim
    rcases bind_eq_error_iff.1 h with hstop | ⟨i, _, -, ⟨⟩⟩
    have hposition : Eval.Pure [] (do Eval.ofExcept s ((← get).position r n)) :=
      .get fun h => .ofExcept s (h.ofValues_position r n)
    exact (Exec.cause_ne_io_of_evaluate (fun _ => hposition) hstop message hf).elim
  | print e s => exact hprints rfl
  | printLine e s => exact hprints rfl
  | loop => exact hs.elim
  | branch => exact hs.elim

end Scriptlet
