-- What a fault leaves. Evaluating an expression changes nothing that was there, so a
-- statement without a body either does all of what it does or stops before any of
-- it, wherever in a program it stands.
import Scriptlet.Proofs.Reaching

namespace Scriptlet

variable {σ : Type} [Output σ]

/-- Whether the output has refused a text of the world `w`, as the fault says. -/
def OutputRefused (w v : WorldOf σ) (f : Fault) : Prop :=
  ∃ text message, Output.write w.sink text = (v.sink, some message) ∧ f.cause = .io message

theorem Stopped.untouched_or_refused {ns : List Node} {w v : WorldOf σ} {f : Fault}
    (h : Stopped ns w v f) : Untouched w v ∨ OutputRefused w v f := by
  cases h with
  | evaluation huntouched _ => exact .inl huntouched
  | output _ _ hwrite hcause => exact .inr ⟨_, _, hwrite, hcause⟩

/-- Evaluating an expression leaves bindings, lists and output as they were, whether or
not it comes to a value. So does a statement without a body that stops, unless the
output has refused its text; and every run that stops does so in a statement that it
has come to, at some depth, and that has left the world so. -/
theorem untouched_of_fault :
    (∀ (e : Expr) (w : WorldOf σ),
      match Exec.evaluate (fun env => e.eval env) w with
      | .ok _ v | .error _ v => Untouched w v) ∧
    (∀ (s : Stmt) (w v : WorldOf σ) (f : Fault), s.Simple → s.exec w = .error f v →
      Untouched w v ∨ OutputRefused w v f) ∧
    ∀ (ss : List Stmt) (last : Option Value) (w v : WorldOf σ) (f : Fault),
      Stmt.execAll last ss w = .error f v →
      ∃ s u, Reaches ss w s u ∧ s.exec u = .error f v ∧
        (Untouched u v ∨ OutputRefused u v f) := by
  refine ⟨?_, ?_, ?_⟩
  · intro e w
    split
    · next a v hstep => exact Exec.untouched_of_evaluate (fun env => e.pure_eval env) hstep
    · next f v hstep =>
      exact (Exec.untouched_of_evaluate_error (fun env => e.pure_eval env) hstep).1
  · intro s w v f hs h
    exact ((Stmt.atomic_exec hs).stopped w f v h).untouched_or_refused
  · intro ss last w v f h
    obtain ⟨s, u, hreaches, hexec, hstopped⟩ := Stmt.stopsIn_of_execAll ss h
    exact ⟨s, u, hreaches, hexec, hstopped.untouched_or_refused⟩

/-- An item past the end of a list, in the second turn of a loop: the list that the
statement has made by then is all that it leaves. -/
theorem untouched_of_second_turn :
    let span : Span := ⟨0, 0, 1⟩
    let statement := Stmt.indexAssign "a" (.ident "i" span) (.list [] span) span
    let loop := Stmt.loop "i" ⟨.number 1 span, .number 2 span, span⟩ [statement] span
    let w : World := ⟨.write .empty "a" (.list 0), ⟨#[#[.int 3, .int 4]]⟩, .unlimited⟩
    let f : Fault := ⟨.indexOutOfBounds 2 2, some span⟩
    ∃ v s u, Stmt.execAll none [loop] w = .error f v ∧ Reaches [loop] w s u ∧
      s.exec u = .error f v ∧ Untouched u v := by
  intro span statement loop w f
  obtain ⟨v, h⟩ : ∃ v, Stmt.execAll none [loop] w = .error f v := ⟨_, rfl⟩
  obtain ⟨s, u, hreaches, hexec, hleft⟩ := untouched_of_fault.2.2 [loop] none w v f h
  refine ⟨v, s, u, h, hreaches, hexec, hleft.resolve_right ?_⟩
  rintro ⟨_, _, -, hcause⟩
  cases hcause

end Scriptlet
