-- Telling the user where a program failed. A fault has the place of a node
-- unless the output could not be flushed, and a place in a source text can
-- always be shown.
import Mathlib
import Scriptlet.Diagnostic
import Scriptlet.Proofs.Compilation
import Scriptlet.Proofs.Faults

namespace Scriptlet

variable {σ : Type} [Output σ]

/-- A fault without a place is that of the flush after the last statement. Any
other is at a node, and if the program was compiled, then at a stretch of its
source that a report shows. -/
theorem place_of_fault (p : Program) (w w' : WorldOf σ) (f : Fault)
    (h : p.run w = .error f w') :
    match f.span with
    | none => ∃ result w₁ message, Stmt.execAll none p.stmts w = .ok result w₁ ∧
        (Output.flush w₁.sink).2 = some message ∧ f = .ofCause (.io message)
    | some s => s ∈ p.nodeSpans ∧ ∀ source, compile source = .ok p →
        s.start < s.stop ∧ s.stop ≤ source.utf8ByteSize ∧
        s.line = 1 + lineFeedsBefore source s.start ∧
        ∀ file, Diagnostic.ofFault file source f =
          .report "Runtime error" f.message file (.ofOffset source s.start) := by
  rcases Program.fault_of_run h with ⟨s, hs, hspan⟩ | ⟨result, w₁, message, hexec, hflush, rfl⟩
  · rw [hspan]
    refine ⟨hs, fun source hcompile => ?_⟩
    obtain ⟨hlt, hstop, hline⟩ := place_of_compile hcompile hs
    refine ⟨hlt, hstop, hline, fun file => ?_⟩
    simp [Diagnostic.ofFault, hspan, hstop]
  · exact ⟨result, w₁, message, hexec, hflush, rfl⟩

/-- A name without a binding on the second line is reported there. -/
theorem place_of_unbound_name :
    let source := "\nx = y;"
    let p : Program := ⟨[.assign "x" (.ident "y" ⟨5, 6, 2⟩) ⟨1, 7, 2⟩]⟩
    let w : World := ⟨.empty, .empty, .unlimited⟩
    let f : Fault := ⟨.undeclaredVariable "y" none, some ⟨5, 6, 2⟩⟩
    compile source = .ok p ∧ p.run w = .error f w ∧ ⟨5, 6, 2⟩ ∈ p.nodeSpans ∧
      2 = 1 + lineFeedsBefore source 5 ∧
      Diagnostic.ofFault "a" source f =
        .report "Runtime error" f.message "a" (.ofOffset source 5) := by
  intro source p w f
  have hcompile : compile source = .ok p := by cbv
  have hrun : p.run w = .error f w := by cbv
  obtain ⟨hmem, hplace⟩ := place_of_fault p w w f hrun
  obtain ⟨-, -, hline, hreport⟩ := hplace source hcompile
  exact ⟨hcompile, hrun, hmem, hline, hreport "a"⟩

end Scriptlet
