-- What a run prints: the texts of the values that its print statements come to, one after
-- the other, and nothing else. The last of them may be the one that the output does not
-- take.
import Scriptlet.Proofs.Effects
import Scriptlet.Proofs.Keeping
import Scriptlet.Proofs.Outputs

namespace Scriptlet

variable {σ : Type} [Output σ]

/-- A statement without a body writes the text of the value that it prints, or nothing. -/
theorem Stmt.sink_of_simple {s : Stmt} (hs : s.Simple) (w : WorldOf σ) :
    (Exec.worldAfter s.exec w).sink = w.sink ∨
      ∃ e ending x h, s.printed? = some (e, ending) ∧ e.eval w.env w.heap = .ok x h ∧
        (Exec.worldAfter s.exec w).sink = (Output.write w.sink (h.display x ++ ending)).1 := by
  cases hexec : s.exec w with
  | error f v =>
    rw [Exec.worldAfter_of_error hexec]
    cases (Stmt.atomic_exec hs).stopped w f v hexec with
    | evaluation huntouched _ => exact .inl huntouched.sink
    | output _ _ _ hcause =>
      obtain ⟨e, ending, x, h, hprinted, heval, -, -, rfl⟩ :=
        Stmt.exec_eq_error_of_io hs hexec hcause
      exact .inr ⟨e, ending, x, h, hprinted, heval, rfl⟩
  | ok result v =>
    rw [Exec.worldAfter_of_ok hexec]
    obtain ⟨x, -, hdoes⟩ := (exec_eq_ok_iff hs).1 hexec
    cases hdoes with
    | assign | store => exact .inl rfl
    | print hprinted heval _ => exact .inr ⟨_, _, x, _, hprinted, heval, rfl⟩

namespace Program

/-- `p.Prints w h x ending`: a run of the program from `w` comes to a print statement whose
operand has the value `x`, with the lists of `h` then, and puts `ending` after its text. -/
def Prints (p : Program) (w : WorldOf σ) (h : Heap) (x : Value) (ending : String) : Prop :=
  ∃ s u e, Reaches p.stmts w s u ∧ s.printed? = some (e, ending) ∧ e.eval u.env u.heap = .ok x h

/-- What an output has been given, since it was that of `w`, by print statements that a run
of the program comes to. -/
def HasPrinted (p : Program) (w : WorldOf σ) (s : σ) : Prop :=
  ∃ texts, s = Output.after w.sink texts ∧
    ∀ text ∈ texts, ∃ h x ending, p.Prints w h x ending ∧ text = h.display x ++ ending

theorem kept_hasPrinted (p : Program) (w : WorldOf σ) :
    Kept (fun u => p.HasPrinted w u.sink) p.stmts w where
  value e u hu := by
    rwa [(Exec.untouched_worldAfter (fun env => e.pure_eval env) u).sink]
  simple s u hreaches hs hu := by
    rcases Stmt.sink_of_simple hs u with hsink | ⟨e, ending, x, h, hprinted, heval, hsink⟩
    · rwa [hsink]
    · obtain ⟨texts, htexts, hall⟩ := hu
      refine ⟨texts ++ [h.display x ++ ending], ?_, List.forall_mem_append.2 ⟨hall, ?_⟩⟩
      · rw [hsink, htexts, Output.after_concat]
      · exact List.forall_mem_singleton.2 ⟨h, x, ending, ⟨s, u, e, hreaches, hprinted, heval⟩, rfl⟩
  turn _ _ _ _ _ _ _ _ hv := hv
  unbind _ _ _ _ _ _ _ hv := hv

/-- All that a run hands to the output, before it is flushed, are texts of print
statements. -/
theorem exists_hasPrinted (p : Program) (w : WorldOf σ) :
    ∃ s, (Exec.worldAfter p.run w).sink = (Output.flush s).1 ∧ p.HasPrinted w s := by
  refine ⟨_, congrArg WorldOf.sink (p.worldAfter_run w), ?_⟩
  exact Stmt.keeps_execAll none p.stmts (p.kept_hasPrinted w) ⟨[], rfl, List.forall_mem_nil _⟩

end Program

end Scriptlet
